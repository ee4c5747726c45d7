import Mathlib.Logic.Function.Basic
import Mathlib.Data.List.Basic

/-!
# IPC — executable model of `kernel/src/ipc.c`

The static array `endpoints` is the state; indices `0 … AEGIS_MAX_ENDPOINTS - 1`
are the ones the code uses. Each function returns its C return code, what it
stores through its output pointer (`none` when it stores nothing), and the new
array. A pointer argument that is only stored through is a flag saying whether
it is non-NULL; the message pointer of `ipc_send` is `none` when it is NULL.
-/

namespace AegisKernel.Ipc

def AEGIS_MSG_PAYLOAD_SIZE : Nat := 48
def AEGIS_MAX_ENDPOINTS : Nat := 64

/-- `endpoint_id_t` -/
abbrev EndpointId := BitVec 64

/-- `aegis_msg_t` of `ipc.h` -/
structure Message where
  sender : EndpointId
  type : BitVec 64
  arg0 : BitVec 64
  arg1 : BitVec 64
  arg2 : BitVec 64
  payload : Vector (BitVec 8) AEGIS_MSG_PAYLOAD_SIZE
deriving DecidableEq

/-- `endpoint_t` -/
structure Endpoint where
  used : Bool
  pending : Message
  hasPending : Bool
deriving DecidableEq

/-- `endpoints` -/
abbrev Endpoints := Nat → Endpoint

/-- `ipc_init`; `pending` keeps its old value. -/
def ipcInit (es : Endpoints) : Endpoints := fun i =>
  if i < AEGIS_MAX_ENDPOINTS then { es i with used := false, hasPending := false } else es i

/-- The first slot `ipc_endpoint_create` finds unused. -/
def firstUnused (es : Endpoints) : Option Nat :=
  (List.range AEGIS_MAX_ENDPOINTS).find? fun i => !(es i).used

/-- `ipc_endpoint_create` -/
def ipcEndpointCreate (es : Endpoints) (outId : Bool) : Int × Option EndpointId × Endpoints :=
  if !outId then (-1, none, es)
  else
    match firstUnused es with
    | some i =>
      (0, some (BitVec.ofNat 64 i),
        Function.update es i { es i with used := true, hasPending := false })
    | none => (-1, none, es)

/-- `ipc_send`; `dest` is its parameter `to`. -/
def ipcSend (es : Endpoints) (dest : EndpointId) (msg : Option Message) : Int × Endpoints :=
  match msg with
  | none => (-1, es)
  | some m =>
    -- -1: no such endpoint; -2: its slot is full
    if dest.toNat ≥ AEGIS_MAX_ENDPOINTS || !(es dest.toNat).used then (-1, es)
    else if (es dest.toNat).hasPending then (-2, es)
    else
      (0, Function.update es dest.toNat { es dest.toNat with pending := m, hasPending := true })

/-- `ipc_recv` -/
def ipcRecv (es : Endpoints) (on : EndpointId) (outMsg : Bool) :
    Int × Option Message × Endpoints :=
  if !outMsg || on.toNat ≥ AEGIS_MAX_ENDPOINTS || !(es on.toNat).used then (-1, none, es)
  -- the buffer is not cleared, only the flag
  else if !(es on.toNat).hasPending then (-2, none, es)
  else
    (0, some (es on.toNat).pending,
      Function.update es on.toNat { es on.toNat with hasPending := false })

/-! ## The endpoint table as a state machine -/

/-- A call into `ipc.c`. -/
inductive Call
  | endpointCreate (outId : Bool)
  | send (dest : EndpointId) (msg : Option Message)
  | recv (on : EndpointId) (outMsg : Bool)

/-- What a call gives back: its return code and what it stored. -/
structure Reply where
  code : Int
  outId : Option EndpointId
  outMsg : Option Message

def exec (es : Endpoints) : Call → Reply × Endpoints
  | .endpointCreate outId =>
    let (code, id, es') := ipcEndpointCreate es outId
    (⟨code, id, none⟩, es')
  | .send dest msg =>
    let (code, es') := ipcSend es dest msg
    (⟨code, none, none⟩, es')
  | .recv on outMsg =>
    let (code, msg, es') := ipcRecv es on outMsg
    (⟨code, none, msg⟩, es')

/-- The calls of a run with their replies, and the table it ends in. -/
def execAll (es : Endpoints) : List Call → List (Call × Reply) × Endpoints
  | [] => ([], es)
  | c :: cs =>
    let (r, es') := exec es c
    let (trace, es'') := execAll es' cs
    ((c, r) :: trace, es'')

end AegisKernel.Ipc
