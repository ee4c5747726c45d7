import AegisKernel.Library.Unwinding
import AegisKernel.Ipc.Definitions

/-!
# IPC — endpoints do not interfere

A call of `ipc_send` or `ipc_recv` reads and writes one entry of `endpoints`
(`exec_local`), and never its `used` flag; `ipc_endpoint_create` reads nothing
but the `used` flags. To a client of endpoint `e`, two tables with the same
`used` flags and the same entry `e` are therefore the same (`SameView`), and
calls on other endpoints do not lead out of that relation. The unwinding rule
then removes them from a run: `endpoints_isolated`.
-/

namespace AegisKernel.Ipc

open Library

/-- The endpoint a call is made on; `ipc_endpoint_create` is on none. -/
def Call.endpoint : Call → Option EndpointId
  | .endpointCreate _ => none
  | .send dest _ => some dest
  | .recv on _ => some on

/-- An `ipc_send` or `ipc_recv` on an endpoint other than `e`. -/
def elsewhere (e : EndpointId) (c : Call) : Bool :=
  match c.endpoint with
  | none => false
  | some d => d != e

/-- The two tables look the same to a client of endpoint `e`. -/
structure SameView (e : EndpointId) (es es' : Endpoints) : Prop where
  used : ∀ i, (es i).used = (es' i).used
  entry : es e.toNat = es' e.toNat

theorem execAll_trace (es : Endpoints) (cs : List Call) :
    (execAll es cs).1 = trace exec es cs := by
  induction cs generalizing es with
  | nil => rfl
  | cons c cs ih =>
    rw [execAll, trace, ← ih]

section OneCall

variable {c : Call} {d e : EndpointId}

/-- A call on endpoint `d` reads and writes the entry of `d` only, and leaves
its `used` flag alone. -/
theorem exec_local (hc : c.endpoint = some d) :
    ∃ f : Endpoint → Reply × Endpoint, (∀ ep, (f ep).2.used = ep.used) ∧
      ∀ es, exec es c =
        ((f (es d.toNat)).1, Function.update es d.toNat (f (es d.toNat)).2) := by
  cases c with
  | endpointCreate outId => simp [Call.endpoint] at hc
  | send dest msg =>
    obtain rfl : dest = d := Option.some.inj hc
    rcases msg with _ | m
    · refine ⟨fun ep => (⟨-1, none, none⟩, ep), fun _ => rfl, fun es => ?_⟩
      rw [Function.update_eq_self]
      rfl
    · refine ⟨fun ep =>
        if dest.toNat ≥ AEGIS_MAX_ENDPOINTS || !ep.used then (⟨-1, none, none⟩, ep)
        else if ep.hasPending then (⟨-2, none, none⟩, ep)
        else (⟨0, none, none⟩, { ep with pending := m, hasPending := true }),
        fun ep => ?_, fun es => ?_⟩
      · dsimp only
        split_ifs <;> rfl
      · simp only [exec, ipcSend]
        split_ifs <;> simp
  | recv on outMsg =>
    obtain rfl : on = d := Option.some.inj hc
    refine ⟨fun ep =>
      if !outMsg || on.toNat ≥ AEGIS_MAX_ENDPOINTS || !ep.used then (⟨-1, none, none⟩, ep)
      else if !ep.hasPending then (⟨-2, none, none⟩, ep)
      else (⟨0, none, some ep.pending⟩, { ep with hasPending := false }),
      fun ep => ?_, fun es => ?_⟩
    · dsimp only
      split_ifs <;> rfl
    · simp only [exec, ipcRecv]
      split_ifs <;> simp

/-- A call on another endpoint is not noticed at `e`. -/
theorem sameView_elsewhere {es : Endpoints} (hc : elsewhere e c = true) :
    SameView e (exec es c).2 es := by
  rcases hd : c.endpoint with _ | d
  · simp [elsewhere, hd] at hc
  · have hde : d ≠ e := by simpa [elsewhere, hd] using hc
    obtain ⟨f, hused, hexec⟩ := exec_local hd
    rw [hexec]
    dsimp only
    refine ⟨fun i => ?_, ?_⟩
    · by_cases hi : i = d.toNat
      · subst hi
        rw [Function.update_self, hused]
      · rw [Function.update_of_ne hi]
    · exact Function.update_of_ne (fun h => hde (BitVec.eq_of_toNat_eq h).symm) _ _

theorem SameView.trans {es₁ es₂ es₃ : Endpoints} (h : SameView e es₁ es₂)
    (h' : SameView e es₂ es₃) : SameView e es₁ es₃ :=
  ⟨fun i => (h.used i).trans (h'.used i), h.entry.trans h'.entry⟩

theorem SameView.symm {es es' : Endpoints} (h : SameView e es es') : SameView e es' es :=
  ⟨fun i => (h.used i).symm, h.entry.symm⟩

/-- `ipc_endpoint_create` scans the `used` flags only. -/
theorem SameView.firstUnused_eq {es es' : Endpoints} (h : SameView e es es') :
    firstUnused es = firstUnused es' := by
  unfold firstUnused
  congr 1
  funext i
  rw [h.used]

/-- A call on `e`, or a creation, gives the same reply on tables that look the
same, and they look the same afterwards. -/
theorem SameView.exec {es es' : Endpoints} (h : SameView e es es') (hc : elsewhere e c = false) :
    (exec es c).1 = (exec es' c).1 ∧ SameView e (exec es c).2 (exec es' c).2 := by
  rcases hd : c.endpoint with _ | d
  · obtain ⟨outId, rfl⟩ : ∃ outId, c = .endpointCreate outId := by
      cases c with
      | endpointCreate outId => exact ⟨outId, rfl⟩
      | send => simp [Call.endpoint] at hd
      | recv => simp [Call.endpoint] at hd
    unfold Ipc.exec ipcEndpointCreate
    rw [h.firstUnused_eq]
    cases outId with
    | false => exact ⟨rfl, h⟩
    | true =>
      rcases firstUnused es' with _ | i
      · exact ⟨rfl, h⟩
      · refine ⟨rfl, fun j => ?_, ?_⟩
        · by_cases hj : j = i
          · subst hj
            simp
          · simpa [hj] using h.used j
        · by_cases hi : e.toNat = i
          · subst hi
            simp [h.entry]
          · simpa [hi] using h.entry
  · obtain rfl : d = e := by simpa [elsewhere, hd] using hc
    obtain ⟨f, -, hexec⟩ := exec_local hd
    rw [hexec, hexec, h.entry]
    refine ⟨rfl, fun j => ?_, ?_⟩
    · by_cases hj : j = d.toNat
      · subst hj
        simp
      · simpa [hj] using h.used j
    · simp

end OneCall

/-- The calls on other endpoints unwind. -/
theorem unwinding_elsewhere (e : EndpointId) : Unwinding exec (elsewhere e) (SameView e) where
  left _ _ _ h hc := (sameView_elsewhere hc).trans h
  right _ _ _ h hc := h.trans (sameView_elsewhere hc).symm
  reply _ _ _ h hc := (h.exec hc).1
  next _ _ _ h hc := (h.exec hc).2

/-- Two calls give the same replies and the same table in either order. -/
def Commute (es : Endpoints) (c₁ c₂ : Call) : Prop :=
  (exec (exec es c₁).2 c₂).1 = (exec es c₂).1 ∧
    (exec (exec es c₂).2 c₁).1 = (exec es c₁).1 ∧
    (exec (exec es c₁).2 c₂).2 = (exec (exec es c₂).2 c₁).2

/-- Calls on different endpoints touch different entries. -/
theorem commute_of_ne (es : Endpoints) {c₁ c₂ : Call} {e₁ e₂ : EndpointId}
    (h₁ : c₁.endpoint = some e₁) (h₂ : c₂.endpoint = some e₂) (hne : e₁ ≠ e₂) :
    Commute es c₁ c₂ := by
  obtain ⟨f, -, hf⟩ := exec_local h₁
  obtain ⟨g, -, hg⟩ := exec_local h₂
  have hidx : e₁.toNat ≠ e₂.toNat := fun h => hne (BitVec.eq_of_toNat_eq h)
  unfold Commute
  rw [hf es, hg es, hg, hf]
  dsimp only
  rw [Function.update_of_ne hidx, Function.update_of_ne hidx.symm]
  exact ⟨rfl, rfl, Function.update_comm hidx _ _ _⟩

/-- **Endpoint isolation.** Take a run after `ipc_init` and delete any of the
calls on endpoints other than `e`: the calls on `e` and the creations that
remain give the same return codes, messages and ids. And in every state reached,
two calls on different endpoints commute. -/
theorem endpoints_isolated (es : Endpoints) (cs : List Call) :
    (∀ e cs', Pruned (elsewhere e) cs cs' →
      seen (elsewhere e) (execAll (ipcInit es) cs).1 =
        seen (elsewhere e) (execAll (ipcInit es) cs').1) ∧
    ∀ c₁ c₂ e₁ e₂, c₁.endpoint = some e₁ → c₂.endpoint = some e₂ → e₁ ≠ e₂ →
      Commute (execAll (ipcInit es) cs).2 c₁ c₂ := by
  refine ⟨fun e cs' h => ?_, fun c₁ c₂ e₁ e₂ h₁ h₂ hne => commute_of_ne _ h₁ h₂ hne⟩
  rw [execAll_trace, execAll_trace]
  exact (unwinding_elsewhere e).seen_eq h ⟨fun _ => rfl, rfl⟩

end AegisKernel.Ipc
