import Mathlib.Data.List.Basic

/-!
# Request queues of a disk

`kernel/block/request.c` and `kernel/block/elevator.c`. A queue has a list of requests for each
direction of the arm, and `requestList` points to one of them. What a request is, and at which
`lba` it is, is left to the user of this file.
-/

namespace XBook

/-- `struct RequestQueue`, where `onUp` says that `requestList` points to `upRequestList`. -/
structure RequestQueue (R : Type*) where
  upRequestList : List R
  downRequestList : List R
  onUp : Bool
  currentRequest : Option R

namespace RequestQueue

variable {R : Type*}

/-- `BlockInitQueue`. -/
def blockInitQueue : RequestQueue R := ⟨[], [], true, none⟩

/-- The list that `requestList` points to. -/
def requestList (q : RequestQueue R) : List R :=
  if q.onUp then q.upRequestList else q.downRequestList

def setRequestList (q : RequestQueue R) (l : List R) : RequestQueue R :=
  if q.onUp then { q with upRequestList := l } else { q with downRequestList := l }

/-- `SwitchRequestList`. -/
def switchRequestList (q : RequestQueue R) : RequestQueue R := { q with onUp := !q.onUp }

/-- `ListAddAfter` behind the first request that the search of the elevator finds. -/
def addAfterFirst (found : R → Bool) (request : R) : List R → Option (List R)
  | [] => none
  | tmp :: rest =>
      if found tmp then some (tmp :: request :: rest)
      else (addAfterFirst found request rest).map (tmp :: ·)

variable (lba : R → Nat)

/-- `ElevatorInUp`. There is no result where the source panics or follows the pointer
`currentRequest` when it is `NULL`. -/
def elevatorInUp (q : RequestQueue R) (request : R) : Option (RequestQueue R) :=
  q.currentRequest.bind fun current =>
    if lba request ≥ lba current then
      (addAfterFirst (fun tmp => lba request ≥ lba tmp) request q.upRequestList).map
        fun l => { q with upRequestList := l }
    else
      some { q with
        downRequestList := (addAfterFirst (fun tmp => lba request ≤ lba tmp) request
          q.downRequestList).getD (request :: q.downRequestList) }

/-- `ElevatorInDown`. -/
def elevatorInDown (q : RequestQueue R) (request : R) : Option (RequestQueue R) :=
  q.currentRequest.bind fun current =>
    if lba request ≤ lba current then
      (addAfterFirst (fun tmp => lba request ≤ lba tmp) request q.downRequestList).map
        fun l => { q with downRequestList := l }
    else
      some { q with
        upRequestList := (addAfterFirst (fun tmp => lba request ≥ lba tmp) request
          q.upRequestList).getD (request :: q.upRequestList) }

/-- `ElevatorIoSchedule`. -/
def elevatorIoSchedule (q : RequestQueue R) (request : R) : Option (RequestQueue R) :=
  if q.requestList.isEmpty then some (q.setRequestList [request])
  else if q.onUp then elevatorInUp lba q request
  else elevatorInDown lba q request

/-- `BlockFetchRequest` on a queue that is not `NULL`. -/
def blockFetchRequest (q : RequestQueue R) : RequestQueue R × Option R :=
  let q := if q.requestList.isEmpty then q.switchRequestList else q
  match q.requestList with
  | [] => (q, none)
  | request :: rest => ({ q.setRequestList rest with currentRequest := some request }, some request)

end RequestQueue

end XBook
