import Mathlib.Data.Nat.Digits.Lemmas
import AegisKernel.Library.Words
import AegisKernel.Console.Definitions

/-!
# Number printers — what they print

* `Spells cells i s` — the cells from `i` on are the string `s` and its NUL;
  `spells_applyStores` finds such a string in a buffer.
* `decLoop_eq`, `hexLoop_eq` — the stores of the digit loops, one behind the other.
* `decimal_printers` — the decimal printers of the kernel and of the process server
  print the same digits, those of the value.
* `kernel_hexText` — the kernel prints its hexadecimal numbers right;
  `hex_printers_never_agree` — the servers never do.
-/

namespace AegisKernel.Console

open Library

-- ---------------------------------------------------------------------------
-- Strings in a buffer
-- ---------------------------------------------------------------------------

def Spells (cells : Nat → UInt8) : Nat → Bytes → Prop
  | i, [] => cells i = 0
  | i, c :: s => cells i = c ∧ c ≠ 0 ∧ Spells cells (i + 1) s

section Strings

variable {cells : Nat → UInt8} {i n : Nat} {s : Bytes}

theorem spells_applyStores (hs : 0 ∉ s) :
    Spells (applyStores cells (storesAt i (s ++ [0]))) i s := by
  induction s generalizing cells i with
  | nil => exact Function.update_self _ _ _
  | cons c s ih =>
    rw [List.mem_cons, not_or] at hs
    refine ⟨?_, Ne.symm hs.1, ih hs.2⟩
    rw [List.cons_append, storesAt, applyStores_cons, applyStores_of_notMem fun w hw => ?_]
    · exact Function.update_self _ _ _
    · have hindex := index_storesAt w hw
      omega

theorem copyText_eq (h : Spells cells i s) (hn : s.length ≤ n) : copyText cells i n = s := by
  induction s generalizing i n with
  | nil =>
    cases n with
    | zero => rfl
    | succ n => exact if_pos h
  | cons c s ih =>
    obtain ⟨hc, hc0, hrest⟩ := h
    cases n with
    | zero => simp at hn
    | succ n =>
      rw [copyText, hc, if_neg hc0, ih hrest (Nat.le_of_succ_le_succ hn)]

/-- The characters and the NUL are read, and nothing behind it. -/
theorem copyReads_eq (h : Spells cells i s) (hn : s.length ≤ n) :
    copyReads cells i n = List.range' i (s.length + 1) := by
  induction s generalizing i n with
  | nil =>
    cases n with
    | zero => rfl
    | succ n => exact if_pos h
  | cons c s ih =>
    obtain ⟨hc, hc0, hrest⟩ := h
    cases n with
    | zero => simp at hn
    | succ n =>
      rw [copyReads, hc, if_neg hc0, ih hrest (Nat.le_of_succ_le_succ hn)]
      rfl

theorem consoleWriteLoop_eq (h : Spells cells i s) (hs : 10 ∉ s) (hn : s.length < n) :
    Kernel.consoleWriteLoop cells i n = some s := by
  induction s generalizing i n with
  | nil =>
    cases n with
    | zero => simp at hn
    | succ n => exact if_pos h
  | cons c s ih =>
    obtain ⟨hc, hc0, hrest⟩ := h
    rw [List.mem_cons, not_or] at hs
    cases n with
    | zero => simp at hn
    | succ n =>
      rw [Kernel.consoleWriteLoop, hc, if_neg hc0, ih hrest hs.2 (Nat.lt_of_succ_lt_succ hn),
        Kernel.serialChars, if_neg (Ne.symm hs.1)]
      rfl

end Strings

theorem decChar_toNat {d : Nat} (h : d < 10) : (decChar d).toNat = 48 + d := by
  unfold decChar
  rw [UInt8.toNat_ofNat']
  omega

-- ---------------------------------------------------------------------------
-- Decimal numbers
-- ---------------------------------------------------------------------------

/-- The decimal digits of a number, the most significant first. -/
def decimalText (n : Nat) : Bytes :=
  if n = 0 then [48] else ((Nat.digits 10 n).map decChar).reverse

/-- The number a decimal text denotes. -/
def decimalValue (text : Bytes) : Nat := text.foldl (fun n c => 10 * n + (c.toNat - 48)) 0

section Decimal

variable {value : BitVec 64} {i : Nat}

/-- The loop stores the digits, the least significant first. -/
theorem decLoop_eq (value : BitVec 64) (i : Nat) :
    decLoop value i = storesAt i ((Nat.digits 10 value.toNat).map decChar) := by
  induction hn : value.toNat using Nat.strongRecOn generalizing value i with
  | ind n ih =>
    rw [decLoop]
    by_cases hpos : 0 < n
    · have hgo : 0 < value := by simpa [BitVec.lt_def, hn] using hpos
      have hdiv : (value / 10#64).toNat = n / 10 := by rw [BitVec.toNat_udiv, hn]; rfl
      have hmod : (value % 10#64).toNat = n % 10 := by rw [BitVec.toNat_umod, hn]; rfl
      rw [if_pos hgo, ih (n / 10) (Nat.div_lt_self hpos (by omega)) _ _ hdiv,
        Nat.digits_def' (by omega) hpos, List.map_cons, storesAt, hmod]
    · have hstop : ¬ 0 < value := by simpa [BitVec.lt_def, hn] using hpos
      have hzero : n = 0 := by omega
      rw [if_neg hstop, hzero, Nat.digits_zero]
      rfl

theorem length_digits_le (value : BitVec 64) : (Nat.digits 10 value.toNat).length ≤ 20 := by
  rw [Nat.digits_length_le_iff (by omega)]
  have hlt := value.isLt
  omega

/-- A decimal text has no NUL and no newline. -/
theorem decimalText_digit (n : Nat) : ∀ c ∈ decimalText n, 48 ≤ c.toNat ∧ c.toNat ≤ 57 := by
  unfold decimalText
  split_ifs with hn
  · simp
  · intro c hc
    obtain ⟨d, hd, rfl⟩ := List.mem_map.mp (List.mem_reverse.mp hc)
    have hlt := Nat.digits_lt_base (by omega) hd
    rw [decChar_toNat hlt]
    omega

theorem decimalValue_reverse {ds : List Nat} (hds : ∀ d ∈ ds, d < 10) :
    decimalValue (ds.map decChar).reverse = Nat.ofDigits 10 ds := by
  induction ds with
  | nil => rfl
  | cons d ds ih =>
    have hd := decChar_toNat (hds d (List.mem_cons_self ..))
    have hrest := ih fun d' hd' => hds d' (List.mem_cons_of_mem _ hd')
    unfold decimalValue at hrest ⊢
    rw [List.map_cons, List.reverse_cons, List.foldl_append, hrest, Nat.ofDigits_cons,
      List.foldl_cons, List.foldl_nil, hd]
    omega

theorem decimalValue_decimalText (n : Nat) : decimalValue (decimalText n) = n := by
  unfold decimalText
  split_ifs with hn
  · exact hn.symm
  · rw [decimalValue_reverse fun d hd => Nat.digits_lt_base (by omega) hd, Nat.ofDigits_digits]

/-- There are no leading zeros. -/
theorem decimalText_head {n : Nat} (hn : n ≠ 0) :
    ∃ c rest, decimalText n = c :: rest ∧ c ≠ 48 := by
  have hne : Nat.digits 10 n ≠ [] := Nat.digits_ne_nil_iff_ne_zero.mpr hn
  have hlast := Nat.getLast_digit_ne_zero 10 hn
  have hlt := Nat.digits_lt_base (b := 10) (by omega) (List.getLast_mem hne)
  refine ⟨decChar ((Nat.digits 10 n).getLast hne),
    (((Nat.digits 10 n).dropLast).map decChar).reverse, ?_, ?_⟩
  · unfold decimalText
    rw [if_neg hn]
    nth_rewrite 1 [← List.dropLast_append_getLast hne]
    rw [List.map_append, List.reverse_append]
    rfl
  · intro h
    have htoNat := congrArg UInt8.toNat h
    rw [decChar_toNat hlt] at htoNat
    exact hlast (by simpa using htoNat)

/-- The kernel sends the digits out last first. -/
theorem decimalText_eq_range (buf : Nat → UInt8) (hvalue : value ≠ 0) :
    (Kernel.decReads value).map (applyStores buf (decLoop value 0)) =
      decimalText value.toNat := by
  have hne : value.toNat ≠ 0 := fun h => hvalue (BitVec.eq_of_toNat_eq h)
  have hcells : (List.range (decLoop value 0).length).map (applyStores buf (decLoop value 0)) =
      (Nat.digits 10 value.toNat).map decChar := by
    rw [decLoop_eq, length_storesAt]
    apply List.ext_getElem (by simp)
    intro k hk hk'
    rw [List.getElem_map, List.getElem_range]
    have hcell := applyStores_storesAt buf 0 hk'
    rw [Nat.zero_add] at hcell
    exact hcell
  unfold decimalText Kernel.decReads
  rw [if_neg hne, List.map_reverse, hcells]

/-- The process server stores them in that order, and a NUL. -/
theorem reverseStores_eq {rev : Nat → UInt8} (hvalue : value ≠ 0) :
    Proc.reverseStores (applyStores rev (decLoop value 0)) (decLoop value 0).length =
      storesAt 0 (decimalText value.toNat ++ [0]) := by
  rw [← decimalText_eq_range rev hvalue, Kernel.decReads, storesAt_append]
  set cells := applyStores rev (decLoop value 0)
  set len := (decLoop value 0).length
  have hdigits : (List.range len).map (fun i => (i, cells (len - 1 - i))) =
      storesAt 0 ((List.range len).reverse.map cells) := by
    apply List.ext_getElem (by simp [length_storesAt])
    intro k hk hk'
    rw [getElem_storesAt 0 hk' (by simpa [length_storesAt] using hk'), List.getElem_map,
      List.getElem_range, Nat.zero_add]
    simp
  have hnul : 0 + ((List.range len).reverse.map cells).length = len := by simp
  rw [Proc.reverseStores, hdigits, hnul]
  rfl

theorem storesWithin_reverseStores {rev : Nat → UInt8} {len n : Nat} (h : len < n) :
    StoresWithin n (Proc.reverseStores rev len) := by
  intro w hw
  rcases List.mem_append.mp hw with hw | hw
  · obtain ⟨k, hk, rfl⟩ := List.mem_map.mp hw
    exact Nat.lt_trans (List.mem_range.mp hk) h
  · rw [List.mem_singleton] at hw
    subst hw
    exact h

theorem decimalText_nul_free (n : Nat) : 0 ∉ decimalText n := by
  intro h
  have hdigit := decimalText_digit n 0 h
  exact absurd hdigit.1 (by decide)

theorem length_decimalText_le (value : BitVec 64) : (decimalText value.toNat).length ≤ 20 := by
  have hlen := length_digits_le value
  unfold decimalText
  split_ifs
  · simp
  · rwa [List.length_reverse, List.length_map]

/-- `"0"`, which both print with their string functions. -/
theorem spells_zero : Spells (literal [48]) 0 [48] := ⟨rfl, by decide, rfl⟩

end Decimal

/-- **The decimal printers are exact.** Both give the digits of the value, without
leading zeros, whatever their buffers held; and no index leaves a buffer, of the stores
and then of the reads. -/
theorem decimal_printers (value : BitVec 64) (kbuf pbuf rev : Nat → UInt8) :
    (∃ n, Kernel.consoleWriteDec kbuf value n = some (decimalText value.toNat)) ∧
      (Proc.procWriteDec pbuf rev value).data = decimalText value.toNat ∧
      decimalValue (decimalText value.toNat) = value.toNat ∧
      (∀ c ∈ decimalText value.toNat, 48 ≤ c.toNat ∧ c.toNat ≤ 57) ∧
      (value = 0 → decimalText value.toNat = [48]) ∧
      (value ≠ 0 → ∃ c rest, decimalText value.toNat = c :: rest ∧ c ≠ 48) ∧
      StoresWithin 21 (decLoop value 0) ∧
      StoresWithin 32 (decLoop value 0) ∧
      StoresWithin 32 (Proc.reverseStores (applyStores rev (decLoop value 0))
        (decLoop value 0).length) ∧
      (∀ i ∈ Kernel.decReads value, i < 21) ∧
      (∀ i ∈ Proc.revReads (decLoop value 0).length, i < 32) ∧
      (value ≠ 0 → ∀ i ∈ copyReads (applyStores pbuf (Proc.reverseStores
        (applyStores rev (decLoop value 0)) (decLoop value 0).length)) 0 256, i < 32) := by
  have hlen := length_digits_le value
  have htext := length_decimalText_le value
  have hloop : (decLoop value 0).length ≤ 20 := by
    rw [decLoop_eq, length_storesAt, List.length_map]
    exact hlen
  refine ⟨?_, ?_, decimalValue_decimalText _, decimalText_digit _, ?_, ?_, ?_, ?_, ?_, ?_, ?_, ?_⟩
  · by_cases hvalue : value = 0
    · subst hvalue
      exact ⟨2, consoleWriteLoop_eq spells_zero (by decide) (by decide)⟩
    · refine ⟨0, ?_⟩
      rw [Kernel.consoleWriteDec, if_neg hvalue]
      exact congrArg some (decimalText_eq_range kbuf hvalue)
  · by_cases hvalue : value = 0
    · subst hvalue
      exact copyText_eq spells_zero (by decide)
    · rw [Proc.procWriteDec, if_neg hvalue]
      dsimp only
      rw [reverseStores_eq hvalue]
      exact copyText_eq (spells_applyStores (decimalText_nul_free _)) (htext.trans (by omega))
  · rintro rfl
    rfl
  · intro hvalue
    exact decimalText_head fun h => hvalue (BitVec.eq_of_toNat_eq h)
  · rw [decLoop_eq]
    refine storesWithin_storesAt ?_
    rw [List.length_map]
    omega
  · rw [decLoop_eq]
    refine storesWithin_storesAt ?_
    rw [List.length_map]
    omega
  · exact storesWithin_reverseStores (by omega)
  · intro i hi
    have hi := List.mem_range.mp (List.mem_reverse.mp hi)
    omega
  · intro i hi
    obtain ⟨k, -, rfl⟩ := List.mem_map.mp hi
    omega
  · intro hvalue i hi
    rw [reverseStores_eq hvalue,
      copyReads_eq (spells_applyStores (decimalText_nul_free _)) (htext.trans (by omega))] at hi
    have hi := (List.mem_range'_1.mp hi).2
    omega

-- ---------------------------------------------------------------------------
-- Hexadecimal numbers
-- ---------------------------------------------------------------------------

/-- The low `k` hexadecimal digits of a number, the most significant first. -/
def hexDigits (n : Nat) : Nat → List Nat
  | 0 => []
  | k + 1 => n / 16 ^ k % 16 :: hexDigits n k

/-- `0x` and sixteen digits, the most significant first, with the given value. -/
def HexText (value : BitVec 64) (text : Bytes) : Prop :=
  ∃ ds : List Nat, ds.length = 16 ∧ (∀ d ∈ ds, d < 16) ∧
    Nat.ofDigits 16 ds.reverse = value.toNat ∧ text = [48, 120] ++ ds.map hexChar

/-- The stores fill the cells of a text and stay inside an array. -/
def Fills (size : Nat) (stores : List (Nat × UInt8)) (text : Bytes) : Prop :=
  StoresWithin size stores ∧ ∀ i < text.length, ∃ w ∈ stores, w.1 = i

/-- The three hexadecimal printers agree on a value, whatever their buffers hold. -/
def HexPrintersAgree (value : BitVec 64) : Prop :=
  ∃ text, HexText value text ∧
    (∀ buf, (Proc.procWriteHex buf value).data = text) ∧
    (∀ buf, (Init.consoleWriteHex buf value).data = text) ∧
    (∀ buf, ∃ n, Kernel.consoleWriteHex buf value n = some text) ∧
    Fills 19 (Proc.hexStores value) text ∧
    Fills 18 (Init.hexStores value) text ∧
    Fills 19 (Kernel.hexStores value) text

section Hex

variable {value : BitVec 64} {i k n : Nat} {text : Bytes}

theorem length_hexDigits (n k : Nat) : (hexDigits n k).length = k := by
  induction k with
  | zero => rfl
  | succ k ih => rw [hexDigits, List.length_cons, ih]

theorem hexDigits_lt (n k : Nat) : ∀ d ∈ hexDigits n k, d < 16 := by
  induction k with
  | zero => simp [hexDigits]
  | succ k ih =>
    intro d hd
    rcases List.mem_cons.mp hd with rfl | hd
    · exact Nat.mod_lt _ (by omega)
    · exact ih d hd

theorem ofDigits_hexDigits (n k : Nat) : Nat.ofDigits 16 (hexDigits n k).reverse = n % 16 ^ k := by
  induction k with
  | zero => simp [hexDigits, Nat.mod_one]
  | succ k ih =>
    rw [hexDigits, List.reverse_cons, Nat.ofDigits_append, ih, List.length_reverse,
      length_hexDigits, Nat.ofDigits_singleton, Nat.pow_succ, Nat.mod_mul]

/-- A value has such a text. -/
theorem hexText_hexDigits (value : BitVec 64) :
    HexText value ([48, 120] ++ (hexDigits value.toNat 16).map hexChar) := by
  refine ⟨hexDigits value.toNat 16, length_hexDigits _ _, hexDigits_lt _ _, ?_, rfl⟩
  rw [ofDigits_hexDigits]
  exact Nat.mod_eq_of_lt value.isLt

/-- And no other. -/
theorem hexText_eq (h : HexText value text) :
    text = [48, 120] ++ (hexDigits value.toNat 16).map hexChar := by
  obtain ⟨ds, hlen, hlt, hvalue, rfl⟩ := h
  have hrev : ds.reverse = (hexDigits value.toNat 16).reverse := by
    refine Nat.ofDigits_inj_of_len_eq (b := 16) (by omega) ?_ ?_ ?_ ?_
    · rw [List.length_reverse, List.length_reverse, length_hexDigits, hlen]
    · exact fun d hd => hlt d (List.mem_reverse.mp hd)
    · exact fun d hd => hexDigits_lt _ _ d (List.mem_reverse.mp hd)
    · rw [hvalue, ofDigits_hexDigits]
      exact (Nat.mod_eq_of_lt value.isLt).symm
  rw [List.reverse_inj.mp hrev]

theorem hexChar_range : ∀ d < 16, hexChar d ≠ 0 ∧ hexChar d ≠ 10 := by decide

/-- The kernel looks its digits up. -/
theorem digits_getD : ∀ d < 16, Kernel.digits.getD (d &&& 0xF) 0 = hexChar d := by decide

/-- The kernel stores the digits in the order they are read. -/
theorem kernel_hexLoop_eq (value : BitVec 64) (hk : k ≤ 16) :
    Kernel.hexLoop value k = storesAt (18 - k) ((hexDigits value.toNat k).map hexChar) := by
  induction k with
  | zero => rfl
  | succ k ih =>
    have hnibble : ((value >>> (k * 4)) &&& 0xF#64).toNat = value.toNat / 16 ^ k % 16 := by
      rw [toNat_and_mask _ _ 4 rfl, BitVec.toNat_ushiftRight, Nat.shiftRight_eq_div_pow,
        Nat.mul_comm, Nat.pow_mul]
      rfl
    have hplace : 2 + (15 - k) = 18 - (k + 1) := by omega
    have hnext : 18 - (k + 1) + 1 = 18 - k := by omega
    rw [Kernel.hexLoop, ih (by omega), hexDigits, List.map_cons, storesAt, hnext, hplace, hnibble,
      digits_getD _ (Nat.mod_lt _ (by omega))]

theorem kernel_hexStores_eq (value : BitVec 64) :
    Kernel.hexStores value =
      storesAt 0 ([48, 120] ++ (hexDigits value.toNat 16).map hexChar ++ [0]) := by
  have hlen : 0 + ([48, 120] ++ (hexDigits value.toNat 16).map hexChar).length = 18 := by
    simp [length_hexDigits]
  rw [Kernel.hexStores, kernel_hexLoop_eq value (Nat.le_refl 16), storesAt_append, hlen,
    storesAt_append]
  rfl

theorem length_hexText (value : BitVec 64) :
    ([48, 120] ++ (hexDigits value.toNat 16).map hexChar).length = 18 := by
  simp [length_hexDigits]

/-- **The kernel prints its hexadecimal numbers right**, whatever its buffer held. -/
theorem kernel_hexText (h : HexText value text) :
    (∀ buf, Kernel.consoleWriteHex buf value 19 = some text) ∧
      Fills 19 (Kernel.hexStores value) text := by
  rw [hexText_eq h]
  refine ⟨fun buf => ?_, ?_, fun i hi => ?_⟩
  · have hchars : ∀ c ∈ [48, 120] ++ (hexDigits value.toNat 16).map hexChar, c ≠ 0 ∧ c ≠ 10 := by
      intro c hc
      rcases List.mem_append.mp hc with hc | hc
      · rcases List.mem_pair.mp hc with rfl | rfl
        · decide
        · decide
      · obtain ⟨d, hd, rfl⟩ := List.mem_map.mp hc
        exact hexChar_range d (hexDigits_lt _ _ d hd)
    rw [Kernel.consoleWriteHex, kernel_hexStores_eq]
    refine consoleWriteLoop_eq (spells_applyStores fun h => (hchars 0 h).1 rfl)
      (fun h => (hchars 10 h).2 rfl) ?_
    rw [length_hexText]
    omega
  · rw [kernel_hexStores_eq]
    refine storesWithin_storesAt ?_
    rw [List.length_append, length_hexText]
    rfl
  · rw [length_hexText] at hi
    rw [kernel_hexStores_eq]
    have hlt : i <
        (storesAt 0 ([48, 120] ++ (hexDigits value.toNat 16).map hexChar ++ [0])).length := by
      rw [length_storesAt, List.length_append, length_hexText]
      exact Nat.lt_succ_of_lt hi
    refine ⟨_, List.getElem_mem hlt, ?_⟩
    rw [getElem_storesAt 0 hlt (length_storesAt ▸ hlt), Nat.zero_add]

theorem hexDigits_succ (n k : Nat) : hexDigits n (k + 1) = hexDigits (n / 16) k ++ [n % 16] := by
  induction k with
  | zero => simp [hexDigits]
  | succ k ih =>
    have hdiv : n / 16 ^ (k + 1) = n / 16 / 16 ^ k := by
      rw [Nat.div_div_eq_div_mul, Nat.pow_succ']
    rw [hexDigits, ih, hdiv, hexDigits, List.cons_append]

/-- The servers store the digits the other way round, from the fourth cell to the
nineteenth. -/
theorem hexLoop_eq (value : BitVec 64) (hk : k ≤ 16) :
    hexLoop value k = storesAt (19 - k) ((hexDigits value.toNat k).reverse.map hexChar) := by
  induction k generalizing value with
  | zero => rfl
  | succ k ih =>
    have hnibble : (value &&& 0xF#64).toNat = value.toNat % 16 := toNat_and_mask _ _ 4 rfl
    have hshift : (value >>> 4).toNat = value.toNat / 16 := by
      rw [BitVec.toNat_ushiftRight, Nat.shiftRight_eq_div_pow]
    have hplace : 18 - k = 19 - (k + 1) := by omega
    have hnext : 19 - (k + 1) + 1 = 19 - k := by omega
    rw [hexLoop, ih _ (by omega), hexDigits_succ, List.reverse_append, List.reverse_singleton,
      List.singleton_append, List.map_cons, storesAt, hnext, hnibble, hshift, hplace]

/-- From the third cell on a text sent is what the buffer held before. -/
theorem spells_hexPrefix {ws : List (Nat × UInt8)} (hws : ∀ w ∈ ws, 3 ≤ w.1) :
    Spells (applyStores (fun _ => 0) (hexPrefix ++ ws)) 0 [48, 120] := by
  have hlow : ∀ i < 3, applyStores (fun _ => 0) (hexPrefix ++ ws) i =
      applyStores (fun _ => 0) hexPrefix i := by
    intro i hi
    rw [applyStores_append]
    refine applyStores_of_notMem fun w hw => ?_
    have hindex := hws w hw
    omega
  refine ⟨?_, by decide, ?_, by decide, ?_⟩
  · rw [hlow 0 (by omega)]
    rfl
  · rw [hlow 1 (by omega)]
    rfl
  · show applyStores _ _ 2 = 0
    rw [hlow 2 (by omega)]
    rfl

theorem index_hexLoop (value : BitVec 64) : ∀ w ∈ hexLoop value 16, 3 ≤ w.1 := by
  rw [hexLoop_eq value (Nat.le_refl 16)]
  exact fun w hw => (index_storesAt w hw).1

/-- With a cleared buffer a text sent ends behind its `0x`. -/
theorem copyText_hexPrefix {ws : List (Nat × UInt8)} (hws : ∀ w ∈ ws, 3 ≤ w.1) :
    copyText (applyStores (fun _ => 0) (hexPrefix ++ ws)) 0 256 = [48, 120] :=
  copyText_eq (spells_hexPrefix hws) (by decide)

theorem procWriteHex_cleared (value : BitVec 64) :
    (Proc.procWriteHex (fun _ => 0) value).data = [48, 120] := by
  show copyText (applyStores _ (hexPrefix ++ hexLoop value 16 ++ [(18, 0)])) 0 256 = _
  rw [List.append_assoc, copyText_hexPrefix]
  intro w hw
  rcases List.mem_append.mp hw with hw | hw
  · exact index_hexLoop value w hw
  · rw [List.mem_singleton.mp hw]
    decide

theorem initWriteHex_cleared (value : BitVec 64) :
    (Init.consoleWriteHex (fun _ => 0) value).data = [48, 120] :=
  copyText_hexPrefix (index_hexLoop value)

/-- The cell of the first digit is not stored to. -/
theorem proc_hexStores_index (value : BitVec 64) : ∀ w ∈ Proc.hexStores value, w.1 ≠ 2 := by
  intro w hw
  unfold Proc.hexStores at hw
  rcases List.mem_append.mp hw with hw | hw
  · rcases List.mem_append.mp hw with hw | hw
    · rcases List.mem_pair.mp hw with rfl | rfl
      · decide
      · decide
    · have hindex := index_hexLoop value w hw
      omega
  · rw [List.mem_singleton.mp hw]
    decide

/-- The last digit of the init server lies behind its 18 cells. -/
theorem init_hexStores_beyond (value : BitVec 64) :
    ¬ StoresWithin 18 (Init.hexStores value) := by
  intro h
  have hloop := hexLoop_eq value (Nat.le_refl 16)
  have hlen : 15 < (hexLoop value 16).length := by
    rw [hloop, length_storesAt, List.length_map, List.length_reverse, length_hexDigits]
    omega
  have hlast := h _ (List.mem_append_right hexPrefix (List.getElem_mem hlen))
  have hindex : (hexLoop value 16)[15].1 = 18 := by
    simp only [hloop]
    rw [getElem_storesAt 3 _ (by simp [length_hexDigits])]
  omega

end Hex

/-- **The hexadecimal printers never agree.** The kernel is right; the servers leave
the first digit's cell as it was, store the digits in reverse behind it, and the last
of them falls on the terminator or behind the buffer. -/
theorem hex_printers_never_agree (value : BitVec 64) :
    ¬ HexPrintersAgree value ∧
      ∀ text, HexText value text →
        (∀ buf, Kernel.consoleWriteHex buf value 19 = some text) ∧
        Fills 19 (Kernel.hexStores value) text ∧
        (∃ buf, (Proc.procWriteHex buf value).data ≠ text) ∧
        (∃ buf, (Init.consoleWriteHex buf value).data ≠ text) ∧
        ¬ Fills 19 (Proc.hexStores value) text ∧
        ¬ StoresWithin 18 (Init.hexStores value) := by
  refine ⟨fun ⟨text, _, _, _, _, _, hinit, _⟩ => init_hexStores_beyond value hinit.1,
    fun text htext => ?_⟩
  obtain ⟨hkernel, hfills⟩ := kernel_hexText htext
  have hlen : text.length = 18 := by rw [hexText_eq htext, length_hexText]
  have hshort : ∀ out : Bytes, out = [48, 120] → out ≠ text := by
    rintro out rfl rfl
    simp at hlen
  refine ⟨hkernel, hfills, ⟨fun _ => 0, hshort _ (procWriteHex_cleared value)⟩,
    ⟨fun _ => 0, hshort _ (initWriteHex_cleared value)⟩, fun hproc => ?_,
    init_hexStores_beyond value⟩
  obtain ⟨w, hw, hindex⟩ := hproc.2 2 (by omega)
  exact proc_hexStores_index value w hw hindex

/-- The value 0x123 on cleared stacks: the process server sends no digit. -/
theorem hex_printers_disagree : ¬ HexPrintersAgree 0x123#64 := by
  rintro ⟨text, ⟨ds, hlen, -, -, rfl⟩, hproc, -⟩
  have hshort := congrArg List.length ((hproc fun _ => 0).symm.trans (procWriteHex_cleared _))
  rw [List.length_append, List.length_map, hlen] at hshort
  exact absurd hshort (by decide)

end AegisKernel.Console
