import Doca.Common.Error
import Doca.Common.Pack

/-!
# Servers on a comm channel

What `file_compression_core.c` and `file_integrity_core.c` have in common: a server takes messages
from a DOCA comm channel, writes what it got into a file and sends a finish message.

* `check` — a call whose result is handed on if it is an error.

The answers of the library are inputs of the model.  A run of a server uses finitely many of them;
a list of answers that is used up stands for a peer that has gone, so every function here returns.
-/

namespace Doca.Common

open Doca.Lib

/-! ## Results -/

def check (result : DocaError) : Except DocaError Unit :=
  if result = .success then .ok () else .error result

def Fails {α : Type} (calls : Except DocaError α) : Prop :=
  ∀ e, calls = .error e → e ≠ .success

def Ends {α : Type} (calls : Except DocaError α) (P : α → Prop) : Prop :=
  Fails calls ∧ ∀ a, calls = .ok a → P a

theorem ends_ok {α : Type} {P : α → Prop} {a : α} (h : P a) : Ends (.ok a) P := by
  refine ⟨nofun, fun b hb => ?_⟩
  cases hb
  exact h

theorem ends_bind {α β : Type} {P : α → Prop} {Q : β → Prop} {calls : Except DocaError α}
    {next : α → Except DocaError β} (h : Ends calls P) (hnext : ∀ a, P a → Ends (next a) Q) :
    Ends (calls >>= next) Q := by
  cases calls with
  | error e =>
    refine ⟨fun e' he' => ?_, nofun⟩
    cases he'
    exact h.1 e rfl
  | ok a => exact hnext a (h.2 a rfl)

theorem check_ends (result : DocaError) : Ends (check result) fun _ => result = .success := by
  unfold check
  split
  · exact ends_ok ‹_›
  · refine ⟨fun e he => ?_, nofun⟩
    cases he
    assumption

theorem ends_check_bind {α : Type} {P : α → Prop} {result : DocaError} {next : Except DocaError α}
    (h : result = .success → Ends next P) : Ends (check result >>= fun _ => next) P :=
  ends_bind (check_ends result) fun _ => h

/-! ## Receiving -/

/-- One answer of `doca_comm_channel_ep_recvfrom`: its result and, on success, the message. -/
structure Arrival where
  result : DocaError
  msg : List UInt8

/-- `num_of_iterations`, an `int`: the time limit in seconds, counted in sleeps of ten
microseconds. -/
def numOfIterations (timeout : Int) : Int := ((timeout * 1000 * 1000).bmod (2 ^ 32)).tdiv 10

def countUp (counter : Int) : Int := (counter + 1).bmod (2 ^ 32)

/-- The loop around `doca_comm_channel_ep_recvfrom`: the answer it ends with, and those left. At `limit`
it ends with `DOCA_ERROR_AGAIN`. -/
def recvLoop (limit : Option Int) : Int → List Arrival → Arrival × List Arrival
  | _, [] => (⟨.notConnected, []⟩, [])
  | counter, a :: rest =>
    if a.result = .again then
      if limit = some (countUp counter) then (a, rest) else recvLoop limit (countUp counter) rest
    else (a, rest)

def msgU64 (msg : List UInt8) : Nat := ntohq (readLe (fun i => msg.getD i 0) 0 8)

def msgU32 (msg : List UInt8) : Nat := ntohl (readLe (fun i => msg.getD i 0) 0 4)

/-! ## The finish message -/

/-- `while (doca_comm_channel_ep_sendto(..) == DOCA_ERROR_AGAIN)`: the result it ends with. -/
def sendLoop : List DocaError → DocaError
  | [] => .notConnected
  | result :: rest => if result = .again then sendLoop rest else result

/-- The code behind `finish_msg`: a failure to send the finish message is returned if `result` is no
error yet. -/
def finishMsg (sends : List DocaError) (result : DocaError) : DocaError :=
  if sendLoop sends ≠ .success ∧ result = .success then sendLoop sends else result

theorem finishMsg_eq_success {sends : List DocaError} {result : DocaError} :
    finishMsg sends result = .success ↔ result = .success ∧ sendLoop sends = .success := by
  unfold finishMsg
  split
  · rename_i h
    exact ⟨fun hs => absurd hs h.1, fun hs => hs.2⟩
  · rename_i h
    refine ⟨fun hr => ⟨hr, ?_⟩, fun hs => hs.1⟩
    by_contra hs
    exact h ⟨hs, hr⟩

theorem finishMsg_ne {sends : List DocaError} {result : DocaError} (h : result ≠ .success) :
    finishMsg sends result ≠ .success := fun hs => h (finishMsg_eq_success.mp hs).1

/-! ## The file -/

/-- A file with content `old` after `data` was written from its start: with `O_CREAT | O_WRONLY` the rest
stays. -/
def overwrite (old : Option (List UInt8)) (data : List UInt8) : List UInt8 :=
  data ++ (old.getD []).drop data.length

theorem overwrite_eq_iff {old : Option (List UInt8)} {data : List UInt8} :
    overwrite old data = data ↔ (old.getD []).length ≤ data.length := by
  unfold overwrite
  rw [List.append_right_eq_self, List.drop_eq_nil_iff]

def wrote (write : Option Nat) (data : List UInt8) : List UInt8 := data.take (write.getD 0)

end Doca.Common
