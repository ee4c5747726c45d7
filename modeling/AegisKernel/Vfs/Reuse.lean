import AegisKernel.Vfs.Namespace

/-!
# VFS server — what a READ can return

Deleting a file leaves its bytes in the slot, and creating one there only sets
the size to 0. Old bytes come back when the size grows over them without a
write: by a TRUNCATE to a larger size, or by a WRITE beyond the end.

The server is run together with a record of which bytes belong to a path
(`Owned`): those stored by a WRITE to it since its last successful CREATE, and
the initial content.

* `OwnBytes` — every READ would return zeros and bytes of its own path only.
* `Clean` — a request makes no leftover byte part of a file.
* `reads_own_bytes` — in a run of clean requests READs return own bytes
  throughout; while names are not cut off, only in such a run.
-/

namespace AegisKernel.Vfs

open Library

attribute [local irreducible] Msg.path

/-! ## Whose bytes -/

/-- `own q k b`: byte `b` at position `k` belongs to path `q`. -/
abbrev Owned := Bytes → Nat → UInt8 → Prop

/-- The content the server starts with. -/
def initialContent : Owned := fun q k b =>
  ∃ i, fileFind vfsInitRamfs q = some i ∧ k < (vfsInitRamfs i).size.toNat ∧
    (vfsInitRamfs i).data k = b

/-- The request is answered, and not with a failure. -/
def Done (t : Table) (m : Msg) : Prop := ∃ r t', handle t m = some (r, t') ∧ Succeeds r

/-- A successful CREATE starts its path's record anew, a successful WRITE adds
what it stores. -/
def record (t : Table) (own : Owned) (m : Msg) : Owned := fun q k b =>
  (own q k b ∧ ¬ (m.type = VFS_CREATE ∧ q = m.path ∧ Done t m)) ∨
  (m.type = VFS_WRITE ∧ q = m.path ∧ Done t m ∧ m.arg0.toNat ≤ k ∧
    k < m.arg0.toNat + m.arg1.toNat ∧ m.data (k - m.arg0.toNat) = b)

/-- The server with its record. -/
def stepOwn (s : Table × Owned) (m : Msg) : Table × Owned := (step s.1 m, record s.1 s.2 m)

/-- Any in-bounds READ would return, at each position, 0 or a byte that belongs
to its path there. -/
def OwnBytes (s : Table × Owned) : Prop :=
  ∀ m r t', m.type = VFS_READ → InBounds m → handle s.1 m = some (r, t') → Succeeds r →
    ∀ k < r.arg0.toNat, r.data k = 0 ∨ s.2 m.path (m.arg0.toNat + k) (r.data k)

/-- READs and WRITEs stay in bounds. -/
def AccessInBounds (m : Msg) : Prop := m.type = VFS_READ ∨ m.type = VFS_WRITE → InBounds m

instance (m : Msg) : Decidable (AccessInBounds m) :=
  inferInstanceAs (Decidable (_ ∨ _ → _ ∧ _))

/-- Up to here the request extends a file without storing bytes. -/
def grownTo (m : Msg) : Nat :=
  if m.type = VFS_TRUNCATE then min m.arg0.toNat 4096
  else if m.type = VFS_WRITE then m.arg0.toNat
  else 0

/-- A TRUNCATE or WRITE of an existing file makes only zeros part of it, besides
what it stores. -/
def Clean (t : Table) (m : Msg) : Prop :=
  ∀ i, fileFind t m.path = some i → ∀ k, (t i).size.toNat ≤ k → k < grownTo m → (t i).data k = 0

/-! ## Requests that succeed -/

section Done

variable {t : Table} {m : Msg} {i : Nat}

theorem absent_of_create_done (hc : m.type = VFS_CREATE) (h : Done t m) :
    fileFind t m.path = none := by
  obtain ⟨r, t', hres, hsucc⟩ := h
  by_contra hfind
  rw [handle_create hc, handleCreate_failed (Or.inl hfind)] at hres
  cases hres
  exact not_succeeds_failure hsucc

theorem create_done (hc : m.type = VFS_CREATE) (hfind : fileFind t m.path = none)
    (hfree : fileFindFree t = some i) : Done t m :=
  ⟨_, _, (handle_create hc).trans (congrArg some (handleCreate_some hfind hfree)),
    succeeds_reply_zero _⟩

theorem write_done (hw : m.type = VFS_WRITE) (hb : InBounds m)
    (hfind : fileFind t m.path = some i) : Done t m := by
  refine ⟨_, _, (handle_write hw).trans (handleWrite_some hfind hb), succeeds_of_lt ?_⟩
  exact hb.2.trans (by omega)

/-- What belongs to the path of an existing file is not forgotten. -/
theorem record_of_named {own : Owned} {q : Bytes} {k : Nat} {b : UInt8} (hnamed : Named t q i)
    (h : own q k b) : record t own m q k b := by
  refine Or.inl ⟨h, ?_⟩
  rintro ⟨hc, hq, hdone⟩
  have habsent := absent_of_create_done hc hdone
  exact (fileFind_eq_none_iff m.path_nul_free).mp habsent i (hq ▸ hnamed)

/-- Requests other than WRITE record nothing new. -/
theorem of_record {own : Owned} {q : Bytes} {k : Nat} {b : UInt8} (hw : m.type ≠ VFS_WRITE)
    (h : record t own m q k b) : own q k b := by
  rcases h with ⟨h, -⟩ | ⟨hw', -⟩
  · exact h
  · exact absurd hw' hw

end Done

/-! ## Clean requests return own bytes -/

/-- Every byte of every file is 0 or belongs to its path. -/
def Accounted (t : Table) (own : Owned) : Prop :=
  ∀ q i, Named t q i → ∀ k < (t i).size.toNat, (t i).data k = 0 ∨ own q k ((t i).data k)

section Accounted

variable {t : Table} {own : Owned} {m : Msg}

/-- A READ returns bytes of the file it finds. -/
theorem read_returns (hf : Fields t) {r : Reply} {t' : Table} (hr : m.type = VFS_READ)
    (hres : handle t m = some (r, t')) (hsucc : Succeeds r) {k : Nat} (hk : k < r.arg0.toNat) :
    ∃ i, fileFind t m.path = some i ∧ m.arg0.toNat + k < (t i).size.toNat ∧
      r.data k = (t i).data (m.arg0.toNat + k) := by
  rw [handle_read hr] at hres
  rcases hfind : fileFind t m.path with _ | i
  · rw [handleRead_none hfind] at hres
    cases hres
    exact absurd hsucc not_succeeds_failure
  · have hsize := hf.size_le i (fileFind_some m.path_nul_free hfind).1
    by_cases hok : ReadOk (t i) m
    · obtain ⟨r', hres', harg0, -, hdata⟩ := handleRead_some hfind hsize hok
      obtain rfl : r' = r := congrArg Prod.fst (Option.some_inj.mp (hres'.symm.trans hres))
      have hle : readSize (t i) m ≤ (t i).size.toNat - m.arg0.toNat := Nat.min_le_right _ _
      rw [harg0, BitVec.toNat_ofNat] at hk
      have hk : k < readSize (t i) m := lt_of_lt_of_le hk (Nat.mod_le _ _)
      refine ⟨i, rfl, by omega, ?_⟩
      rw [hdata, copyInto, if_pos ⟨Nat.zero_le k, by omega⟩]
      rfl
    · -- outside the file or the reply there is no answer
      rw [handleRead_fault hfind hsize hok] at hres
      cases hres

theorem ownBytes_of_accounted (hf : Fields t) (h : Accounted t own) : OwnBytes (t, own) := by
  intro m r t' hr _ hres hsucc k hk
  obtain ⟨i, hfind, hlt, hdata⟩ := read_returns hf hr hres hsucc hk
  rw [hdata]
  exact h m.path i (fileFind_some m.path_nul_free hfind) _ hlt

/-- Old bytes of a file stay accounted for, whatever the request. -/
theorem Accounted.recorded (h : Accounted t own) {q : Bytes} {j : Nat} (hnamed : Named t q j)
    {k : Nat} (hk : k < (t j).size.toNat) :
    (t j).data k = 0 ∨ record t own m q k ((t j).data k) := by
  rcases h q j hnamed k hk with hzero | hown
  · exact Or.inl hzero
  · exact Or.inr (record_of_named hnamed hown)

/-- A slot that the request leaves as it is stays accounted for. -/
theorem accounted_of_same {t' : Table} (h : Accounted t own) {q : Bytes} {j : Nat}
    (hsame : t' j = t j) (hnamed : Named t' q j) :
    ∀ k < (t' j).size.toNat, (t' j).data k = 0 ∨ record t own m q k ((t' j).data k) := by
  unfold Named at hnamed
  rw [hsame] at hnamed ⊢
  exact fun k hk => h.recorded hnamed hk

/-- Step lemma. -/
theorem accounted_step (hb : m.type = VFS_WRITE → InBounds m) (h : Accounted t own)
    (hclean : Clean t m) : Accounted (step t m) (record t own m) := by
  have hchange := step_change (t := t) hb
  generalize step t m = t' at hchange ⊢
  cases hchange with
  | same => exact fun q j hnamed => accounted_of_same h rfl hnamed
  | write i hw hfind =>
    intro q j hnamed
    by_cases hj : j = i
    · subst hj
      have hnames := setEntry_names (t := t) (i := j) (f := written m) rfl rfl
      have hbefore := (named_congr hnames).mp hnamed
      have hq : q = m.path :=
        hbefore.2.2.symm.trans (fileFind_some m.path_nul_free hfind).2.2
      have hgrown : grownTo m = m.arg0.toNat := by
        rw [grownTo, if_neg (by rw [hw]; decide), if_pos hw]
      intro k hk
      rw [setEntry_self, written_size (hb hw)] at hk
      rw [setEntry_self]
      show copyInto (t j).data m.arg0.toNat m.arg1.toNat m.data k = 0 ∨
        record t own m q k (copyInto (t j).data m.arg0.toNat m.arg1.toNat m.data k)
      by_cases hin : m.arg0.toNat ≤ k ∧ k < m.arg0.toNat + m.arg1.toNat
      · -- a byte this WRITE stores
        rw [copyInto, if_pos hin]
        exact Or.inr (Or.inr ⟨hw, hq, write_done hw (hb hw) hfind, hin.1, hin.2, rfl⟩)
      · rw [copyInto, if_neg hin]
        by_cases hold : k < (t j).size.toNat
        · exact h.recorded hbefore hold
        · -- between the old end and the bytes stored
          exact Or.inl (hclean j hfind k (by omega) (by omega))
    · exact accounted_of_same h (setEntry_of_ne hj) hnamed
  | create i hc hfind hfree =>
    intro q j hnamed
    by_cases hj : j = i
    · subst hj
      intro k hk
      rw [setEntry_self] at hk
      exact absurd hk (Nat.not_lt_zero k)
    · exact accounted_of_same h (setEntry_of_ne hj) hnamed
  | delete i hd hfind =>
    intro q j hnamed
    have hj : j ≠ i := (named_deleted.mp hnamed).1
    exact accounted_of_same h (setEntry_of_ne hj) hnamed
  | truncate i ht hfind =>
    intro q j hnamed
    by_cases hj : j = i
    · subst hj
      have hnames := setEntry_names (t := t) (i := j) (f := truncated m) rfl rfl
      have hbefore := (named_congr hnames).mp hnamed
      have hgrown : grownTo m = min m.arg0.toNat 4096 := if_pos ht
      intro k hk
      rw [setEntry_self] at hk ⊢
      have hk : k < min m.arg0.toNat 4096 := truncateSize_toNat m ▸ hk
      rw [truncated_data, if_neg (by omega)]
      by_cases hold : k < (t j).size.toNat
      · exact h.recorded hbefore hold
      · -- the file grows over position `k`
        exact Or.inl (hclean j hfind k (by omega) (by omega))
    · exact accounted_of_same h (setEntry_of_ne hj) hnamed

end Accounted

/-! ## Only clean requests do -/

/-- A leftover byte beyond the end of a file is at a position where nothing
belongs to the file's path. -/
def Unclaimed (t : Table) (own : Owned) : Prop :=
  ∀ q i, Named t q i → ∀ k, (t i).size.toNat ≤ k → (t i).data k ≠ 0 → ∀ b, ¬ own q k b

section Unclaimed

variable {t : Table} {own : Owned} {m : Msg} {i : Nat}

/-- A one-byte READ shows any byte of a file. -/
theorem owned_of_ownBytes (hf : Fields t) (h : OwnBytes (t, own))
    (hfind : fileFind t m.path = some i) {k : Nat} (hk : k < (t i).size.toNat) :
    (t i).data k = 0 ∨ own m.path k ((t i).data k) := by
  have hsize := hf.size_le i (fileFind_some m.path_nul_free hfind).1
  have hat : (BitVec.ofNat 64 k).toNat = k := by
    rw [BitVec.toNat_ofNat]
    omega
  have hone : (1#64 : Word).toNat = 1 := rfl
  -- the request itself, turned into a READ of position `k`
  let probe : Msg := { m with type := VFS_READ, arg0 := BitVec.ofNat 64 k, arg1 := 1#64 }
  have hpath : probe.path = m.path := by
    unfold Msg.path
    rfl
  have hbounds : InBounds probe := by
    show (BitVec.ofNat 64 k).toNat + (1#64 : Word).toNat ≤ 4096 ∧ (1#64 : Word).toNat ≤ 512
    omega
  have hcount : readSize (t i) probe = 1 := by
    show min (1#64 : Word).toNat ((t i).size.toNat - (BitVec.ofNat 64 k).toNat) = 1
    omega
  have hok : ReadOk (t i) probe := by
    show (BitVec.ofNat 64 k).toNat ≤ (t i).size.toNat ∧ readSize (t i) probe ≤ 512 ∧
      ((BitVec.ofNat 64 k).toNat + (1#64 : Word).toNat < 2 ^ 64 ∨ _)
    exact ⟨by omega, by omega, Or.inl (by omega)⟩
  have hfind : fileFind t probe.path = some i := hpath ▸ hfind
  obtain ⟨r, hres, harg0, -, hdata⟩ := handleRead_some hfind hsize hok
  rw [hcount] at harg0 hdata
  have hsucc : Succeeds r := succeeds_of_lt (by rw [harg0]; decide)
  have hshown := h probe r t rfl hbounds ((handle_read rfl).trans hres) hsucc 0 (by
    rw [harg0]
    decide)
  have hbyte : r.data 0 = (t i).data k := by
    rw [hdata, copyInto, if_pos ⟨Nat.le_refl 0, Nat.zero_lt_one⟩]
    show (t i).data ((BitVec.ofNat 64 k).toNat + (0 - 0)) = _
    rw [hat]
    rfl
  rw [hbyte, hpath] at hshown
  have hpos : probe.arg0.toNat + 0 = k := hat
  rwa [hpos] at hshown

/-- A position that an edit brings into the file held no leftover byte. -/
theorem zero_of_uncovered (hu : Unclaimed t own) (hfind : fileFind t m.path = some i)
    {f : FileEntry → FileEntry} (hused : (f (t i)).used = (t i).used)
    (hname : (f (t i)).name = (t i).name) (hf : Fields (setEntry t i f))
    (h : OwnBytes (setEntry t i f, record t own m)) {k : Nat} (hge : (t i).size.toNat ≤ k)
    (hlt : k < (f (t i)).size.toNat) (hdata : (f (t i)).data k = (t i).data k)
    (hown : ∀ b, record t own m m.path k b → own m.path k b) : (t i).data k = 0 := by
  have hnow : fileFind (setEntry t i f) m.path = some i :=
    (fileFind_congr (setEntry_names hused hname) _).trans hfind
  have hlt : k < (setEntry t i f i).size.toNat := by
    rw [setEntry_self]
    exact hlt
  have hshown := owned_of_ownBytes hf h hnow hlt
  rw [setEntry_self, hdata] at hshown
  by_contra hne
  have hnamed := fileFind_some m.path_nul_free hfind
  exact hu _ i hnamed k hge hne _ (hown _ (hshown.resolve_left hne))

theorem clean_of_ownBytes (hf : Fields t) (hb : m.type = VFS_WRITE → InBounds m)
    (hu : Unclaimed t own) (h : OwnBytes (stepOwn (t, own) m)) : Clean t m := by
  intro i hfind k hge hlt
  have hf' : Fields (step t m) := hf.step m
  by_cases ht : m.type = VFS_TRUNCATE
  · have hstep := step_of_handle
      ((handle_truncate ht).trans (congrArg some (handleTruncate_some hfind)))
    rw [grownTo, if_pos ht] at hlt
    rw [hstep] at hf'
    rw [stepOwn, hstep] at h
    refine zero_of_uncovered hu hfind rfl rfl hf' h hge ?_ ?_ ?_
    · exact (truncateSize_toNat m).symm ▸ hlt
    · rw [truncated_data, if_neg (by omega)]
    · exact fun b => of_record (by rw [ht]; decide)
  by_cases hw : m.type = VFS_WRITE
  · have hstep := step_of_handle ((handle_write hw).trans (handleWrite_some hfind (hb hw)))
    rw [grownTo, if_neg ht, if_pos hw] at hlt
    rw [hstep] at hf'
    rw [stepOwn, hstep] at h
    refine zero_of_uncovered hu hfind rfl rfl hf' h hge ?_ ?_ ?_
    · rw [written_size (hb hw)]
      omega
    · exact if_neg (by omega)
    · -- the WRITE stores nothing below its offset
      rintro b (⟨hown, -⟩ | ⟨-, -, -, hstart, -⟩)
      · exact hown
      · omega
  · rw [grownTo, if_neg ht, if_neg hw] at hlt
    exact absurd hlt (Nat.not_lt_zero k)

/-- A slot that a request other than WRITE leaves as it is. -/
theorem unclaimed_of_same {t' : Table} (hu : Unclaimed t own) (hw : m.type ≠ VFS_WRITE)
    {q : Bytes} {j : Nat} (hsame : t' j = t j) (hnamed : Named t' q j) :
    ∀ k, (t' j).size.toNat ≤ k → (t' j).data k ≠ 0 → ∀ b, ¬ record t own m q k b := by
  unfold Named at hnamed
  rw [hsame] at hnamed ⊢
  intro k hge hne b hrec
  exact hu q j hnamed k hge hne b (of_record hw hrec)

theorem unclaimed_write (hd : NamesDistinct t) (hu : Unclaimed t own) (hw : m.type = VFS_WRITE)
    (hb : InBounds m) : Unclaimed (step t m) (record t own m) := by
  rcases hfind : fileFind t m.path with _ | i
  · -- nothing is stored, so nothing is recorded
    have hres := (handle_write hw).trans (handleWrite_none hfind)
    rw [step_of_handle hres]
    intro q j hnamed k hge hne b hrec
    rcases hrec with ⟨hown, -⟩ | ⟨-, -, ⟨r, t', hdone, hsucc⟩, -⟩
    · exact hu q j hnamed k hge hne b hown
    · rw [hres] at hdone
      cases hdone
      exact not_succeeds_failure hsucc
  · rw [step_of_handle ((handle_write hw).trans (handleWrite_some hfind hb))]
    intro q j hnamed k hge hne b hrec
    have hbefore := (named_congr (setEntry_names (f := written m) rfl rfl)).mp hnamed
    by_cases hj : j = i
    · subst hj
      rw [setEntry_self] at hge hne
      rw [written_size hb] at hge
      have hdata : (written m (t j)).data k = (t j).data k := if_neg (by omega)
      rw [hdata] at hne
      rcases hrec with ⟨hown, -⟩ | ⟨-, -, -, -, hend, -⟩
      · exact hu q j hbefore k (by omega) hne b hown
      · omega
    · rw [setEntry_of_ne hj] at hge hne
      rcases hrec with ⟨hown, -⟩ | ⟨-, hq, -⟩
      · exact hu q j hbefore k hge hne b hown
      · -- only slot `i` has the path of the request
        have hnamed' := fileFind_some m.path_nul_free hfind
        exact hj (hd m.path j i (hq ▸ hbefore) hnamed')

/-- Step lemma: leftover bytes stay unclaimed, as TRUNCATE clears what it cuts
off and CREATE starts the record of its path anew. -/
theorem unclaimed_step (hb : m.type = VFS_WRITE → InBounds m) (hf : Fields t)
    (hd : NamesDistinct t) (hshort : m.type = VFS_CREATE → m.path.length ≤ 63)
    (hu : Unclaimed t own) : Unclaimed (step t m) (record t own m) := by
  by_cases hw : m.type = VFS_WRITE
  · exact unclaimed_write hd hu hw (hb hw)
  have hchange := step_change (t := t) hb
  generalize step t m = t' at hchange ⊢
  cases hchange with
  | same => exact fun q j hnamed => unclaimed_of_same hu hw rfl hnamed
  | write i hw' hfind => exact absurd hw' hw
  | create i hc hfind hfree =>
    intro q j hnamed
    have hi := (fileFindFree_some hfree).1
    rcases (named_created hf hi (hshort hc)).mp hnamed with ⟨-, hq⟩ | ⟨hj, -⟩
    · -- the new file: nothing belongs to its path yet
      intro k _ _ b hrec
      rcases hrec with ⟨-, hkept⟩ | ⟨hw', -⟩
      · exact hkept ⟨hc, hq, create_done hc hfind hfree⟩
      · exact hw hw'
    · exact unclaimed_of_same hu hw (setEntry_of_ne hj) hnamed
  | delete i hdel hfind =>
    intro q j hnamed
    have hj : j ≠ i := (named_deleted.mp hnamed).1
    exact unclaimed_of_same hu hw (setEntry_of_ne hj) hnamed
  | truncate i ht hfind =>
    intro q j hnamed
    by_cases hj : j = i
    · subst hj
      have hbefore := (named_congr (setEntry_names (f := truncated m) rfl rfl)).mp hnamed
      intro k hge hne b hrec
      rw [setEntry_self] at hge hne
      have hge : min m.arg0.toNat 4096 ≤ k := truncateSize_toNat m ▸ hge
      rw [truncated_data] at hne
      by_cases hold : k < (t j).size.toNat
      · -- cut off by this TRUNCATE
        rw [if_pos ⟨hge, hold⟩] at hne
        exact hne rfl
      · rw [if_neg (fun hin => hold hin.2)] at hne
        exact hu q j hbefore k (by omega) hne b (of_record hw hrec)
    · exact unclaimed_of_same hu hw (setEntry_of_ne hj) hnamed

end Unclaimed

/-! ## The initial table -/

/-- Nonzero bytes are inside files only. -/
def NoLeftovers (t : Table) : Prop :=
  ∀ i k, (t i).data k ≠ 0 → (t i).used = true ∧ k < (t i).size.toNat

theorem noLeftovers_addDefault {t : Table} (h : NoLeftovers t) (name content : Bytes)
    (hlen : content.length < 2 ^ 64) : NoLeftovers (addDefault t name content) := by
  unfold addDefault
  split
  · exact h
  · rename_i i hfree
    intro j k hne
    by_cases hj : j = i
    · subst hj
      rw [setEntry_self] at hne ⊢
      refine ⟨rfl, ?_⟩
      show k < (BitVec.ofNat 64 content.length).toNat
      rw [BitVec.toNat_ofNat, Nat.mod_eq_of_lt hlen]
      by_contra hge
      -- past the content the free slot holds zeros
      have hold : (t j).data k ≠ 0 := fun hzero => hne ((if_neg (by omega)).trans hzero)
      have hused := (h j k hold).1
      rw [(fileFindFree_some hfree).2] at hused
      exact Bool.false_ne_true hused
    · rw [setEntry_of_ne hj] at hne ⊢
      exact h j k hne

theorem noLeftovers_vfsInitRamfs : NoLeftovers vfsInitRamfs := by
  have hempty : NoLeftovers emptyTable := fun i k h => absurd rfl h
  have hhello := noLeftovers_addDefault hempty helloName helloText (by decide)
  have hreadme := noLeftovers_addDefault hhello readmeName readmeText (by decide)
  exact noLeftovers_addDefault hreadme versionName versionText (by decide)

theorem accounted_initial : Accounted vfsInitRamfs initialContent := by
  intro q i hnamed k hk
  have hq : 0 ∉ q := hnamed.2.2 ▸ cstring_nul_free _
  exact Or.inr ⟨i, (fileFind_eq_some_iff namesDistinct_vfsInitRamfs hq).mpr hnamed, hk, rfl⟩

theorem unclaimed_initial : Unclaimed vfsInitRamfs initialContent := by
  intro q i _ k hge hne
  exact absurd (noLeftovers_vfsInitRamfs i k hne).2 (by omega)

/-! ## Whole runs -/

theorem ownBytes_of_clean (ms : List Msg) (hms : ∀ m ∈ ms, AccessInBounds m)
    (hclean : Meets step Clean vfsInitRamfs ms) :
    Throughout stepOwn OwnBytes (vfsInitRamfs, initialContent) ms := by
  have hdomain : Meets stepOwn (fun _ m => AccessInBounds m) (vfsInitRamfs, initialContent) ms :=
    meets_of_forall fun m hm _ => hms m hm
  have hclean : Meets stepOwn (fun s m => Clean s.1 m) (vfsInitRamfs, initialContent) ms :=
    (meets_map Prod.fst fun _ _ => rfl).mpr hclean
  have hgood : ∀ s : Table × Owned, Fields s.1 ∧ Accounted s.1 s.2 → OwnBytes s :=
    fun s hinv => ownBytes_of_accounted hinv.1 hinv.2
  have hkeep : ∀ s m, Fields s.1 ∧ Accounted s.1 s.2 → Clean s.1 m ∧ AccessInBounds m →
      Fields (stepOwn s m).1 ∧ Accounted (stepOwn s m).1 (stepOwn s m).2 := by
    intro s m hinv hm
    exact ⟨hinv.1.step m, accounted_step (fun hw => hm.2 (Or.inr hw)) hinv.2 hm.1⟩
  exact throughout_of_meets hgood hkeep ⟨fields_vfsInitRamfs, accounted_initial⟩
    (meets_and.mpr ⟨hclean, hdomain⟩)

/-- The invariant behind the converse. -/
structure Tracked (s : Table × Owned) : Prop where
  fields : Fields s.1
  distinct : NamesDistinct s.1
  accounted : Accounted s.1 s.2
  unclaimed : Unclaimed s.1 s.2

theorem ownBytes_iff_clean (ms : List Msg)
    (hms : ∀ m ∈ ms, AccessInBounds m ∧ (m.type = VFS_CREATE → m.path.length ≤ 63)) :
    Throughout stepOwn OwnBytes (vfsInitRamfs, initialContent) ms ↔
      Meets step Clean vfsInitRamfs ms := by
  have hdomain : Meets stepOwn
      (fun _ m => AccessInBounds m ∧ (m.type = VFS_CREATE → m.path.length ≤ 63))
      (vfsInitRamfs, initialContent) ms := meets_of_forall fun m hm _ => hms m hm
  -- the invariant gives own bytes, a clean step keeps it, and a step that is not
  -- clean shows a leftover byte at once
  have hgood : ∀ s, Tracked s → OwnBytes s :=
    fun s hinv => ownBytes_of_accounted hinv.fields hinv.accounted
  have hkeep : ∀ s m, Tracked s →
      (AccessInBounds m ∧ (m.type = VFS_CREATE → m.path.length ≤ 63)) → Clean s.1 m →
      Tracked (stepOwn s m) := by
    intro s m hinv hm hclean
    have hb : m.type = VFS_WRITE → InBounds m := fun hw => hm.1 (Or.inr hw)
    exact ⟨hinv.fields.step m, hinv.distinct.step hinv.fields hb fun hc _ _ => hm.2 hc,
      accounted_step hb hinv.accounted hclean,
      unclaimed_step hb hinv.fields hinv.distinct hm.2 hinv.unclaimed⟩
  have hexact : ∀ s m, Tracked s →
      (AccessInBounds m ∧ (m.type = VFS_CREATE → m.path.length ≤ 63)) →
      (OwnBytes (stepOwn s m) ↔ Clean s.1 m) := by
    intro s m hinv hm
    have hb : m.type = VFS_WRITE → InBounds m := fun hw => hm.1 (Or.inr hw)
    exact ⟨clean_of_ownBytes hinv.fields hb hinv.unclaimed,
      fun hclean => hgood _ (hkeep s m hinv hm hclean)⟩
  have hstart : Tracked (vfsInitRamfs, initialContent) :=
    ⟨fields_vfsInitRamfs, namesDistinct_vfsInitRamfs, accounted_initial, unclaimed_initial⟩
  rw [throughout_iff_meets hgood hexact hkeep hstart hdomain]
  exact meets_map Prod.fst fun _ _ => rfl

/-- **READs return own bytes.** In a run with READs and WRITEs in bounds whose
requests are clean, every READ made at any point returns zeros and bytes of its
own path only. A run whose CREATEs have paths of at most 63 bytes has this
property only if its requests are clean. -/
theorem reads_own_bytes (ms : List Msg) (hms : ∀ m ∈ ms, AccessInBounds m) :
    (Meets step Clean vfsInitRamfs ms →
      Throughout stepOwn OwnBytes (vfsInitRamfs, initialContent) ms) ∧
    ((∀ m ∈ ms, m.type = VFS_CREATE → m.path.length ≤ 63) →
      Throughout stepOwn OwnBytes (vfsInitRamfs, initialContent) ms →
        Meets step Clean vfsInitRamfs ms) := by
  refine ⟨ownBytes_of_clean ms hms, fun hshort hown => ?_⟩
  exact (ownBytes_iff_clean ms fun m hm => ⟨hms m hm, hshort m hm⟩).mp hown

/-- TRUNCATE of `/notes` to 15 bytes. -/
def growNotes : Msg := request VFS_TRUNCATE 15#64 0#64 (ascii ['/', 'n', 'o', 't', 'e', 's'])

/-- `/notes` in a slot that was never used. -/
theorem reads_own_bytes_fresh_slot :
    (∀ m ∈ [createNotes, growNotes], AccessInBounds m) ∧
      Throughout stepOwn OwnBytes (vfsInitRamfs, initialContent) [createNotes, growNotes] := by
  have hms : ∀ m ∈ [createNotes, growNotes], AccessInBounds m := by decide +kernel
  have hcreate : Clean vfsInitRamfs createNotes := fun _ _ k _ h => absurd h (Nat.not_lt_zero k)
  have hgrow : Clean (step vfsInitRamfs createNotes) growNotes := by
    have hfind : fileFind (step vfsInitRamfs createNotes) growNotes.path = some 3 := by
      decide +kernel
    have hzero : ∀ k < 15, (step vfsInitRamfs createNotes 3).data k = 0 := by decide +kernel
    intro i hi k _ hk
    obtain rfl : 3 = i := Option.some_inj.mp (hfind.symm.trans hi)
    exact hzero k hk
  exact ⟨hms, (reads_own_bytes _ hms).1 ⟨hcreate, hgrow, trivial⟩⟩

def deleteVersion : Msg := request VFS_DELETE 0#64 0#64 versionName

/-- READ of the first 15 bytes of `/notes`. -/
def readNotes : Msg := request VFS_READ 0#64 15#64 (ascii ['/', 'n', 'o', 't', 'e', 's'])

/-- `/notes` takes the slot of the deleted `/version`; once grown, it reads
"Aegis OS", the content of `/version`, though nothing was written to it. -/
theorem deleted_file_readable :
    (∀ m ∈ [deleteVersion, createNotes, growNotes], AccessInBounds m) ∧
    ¬ Throughout stepOwn OwnBytes (vfsInitRamfs, initialContent)
      [deleteVersion, createNotes, growNotes] ∧
    (handle (run step vfsInitRamfs [deleteVersion, createNotes, growNotes]) readNotes).map
      (fun res => (List.range 8).map res.1.data) =
        some (ascii ['A', 'e', 'g', 'i', 's', ' ', 'O', 'S']) := by
  have hms : ∀ m ∈ [deleteVersion, createNotes, growNotes],
      AccessInBounds m ∧ (m.type = VFS_CREATE → m.path.length ≤ 63) := by
    decide +kernel
  refine ⟨fun m hm => (hms m hm).1, fun hown => ?_, by decide +kernel⟩
  obtain ⟨-, -, hgrow, -⟩ := (ownBytes_iff_clean _ hms).mp hown
  have hfind : fileFind (step (step vfsInitRamfs deleteVersion) createNotes) growNotes.path =
      some 2 := by decide +kernel
  have hsize : (step (step vfsInitRamfs deleteVersion) createNotes 2).size = 0#64 := by
    decide +kernel
  have hbyte : (step (step vfsInitRamfs deleteVersion) createNotes 2).data 0 ≠ 0 := by
    decide +kernel
  exact hbyte (hgrow 2 hfind 0 (by rw [hsize]; decide) (by decide))

end AegisKernel.Vfs
