import WineForge.Library.SortedInsert
import WineForge.Library.Transition

/-!
# Timeouts of the server

Absolute timeouts lie in one list and relative ones in another, where the expiry on the monotonic
clock is negated. One call moves what has expired to a list of its own and runs the callbacks from
there, and these add and remove timeouts in turn. Times are 64-bit counts of 100 ns.
-/

namespace WineForge.Timeouts

open WineForge.Library

def ticksPerSec : Int := 10000000
def intMax : Int := 0x7fffffff
def userSharedDataTimeout : Int := 16 * 10000

def wrap (x : Int) : Int := (x + 2 ^ 63) % 2 ^ 64 - 2 ^ 63

/-- The conversion of a 64-bit integer to `int`. -/
def toInt (x : Int) : Int := (x + 2 ^ 31) % 2 ^ 32 - 2 ^ 31

structure TimeoutUser where
  /-- the address of the structure, which is not used again here -/
  id : Nat
  when : Int
  deriving DecidableEq, Repr

/-- What was asked for, and the monotonic time then. -/
structure Request where
  id : Nat
  when : Int
  monotonicTime : Int
  deriving DecidableEq, Repr

/-- A callback that was invoked, and the clocks then. -/
structure Call where
  id : Nat
  currentTime : Int
  monotonicTime : Int
  deriving DecidableEq, Repr

structure State where
  absTimeoutList : List TimeoutUser
  relTimeoutList : List TimeoutUser
  /-- the local list of `get_next_timeout`, which is empty outside of it -/
  expiredList : List TimeoutUser
  currentTime : Int
  monotonicTime : Int
  userSharedData : Bool
  nextId : Nat
  /-- what has happened so far -/
  requests : List Request
  calls : List Call
  removed : List Nat
  deriving DecidableEq, Repr

def timeoutToAbstime (timeout monotonicTime : Int) : Int :=
  if 0 < timeout then timeout else wrap (timeout - monotonicTime)

def addTimeoutUser (s : State) (when : Int) (memOk : Bool) : State :=
  if !memOk then s
  else
    let user : TimeoutUser := ⟨s.nextId, timeoutToAbstime when s.monotonicTime⟩
    let s :=
      if 0 < user.when then
        { s with absTimeoutList :=
            insertBefore (fun timeout => decide (user.when ≤ timeout.when)) user s.absTimeoutList }
      else
        { s with relTimeoutList :=
            insertBefore (fun timeout => decide (timeout.when ≤ user.when)) user s.relTimeoutList }
    { s with
      nextId := s.nextId + 1
      requests := ⟨user.id, when, s.monotonicTime⟩ :: s.requests }

def unlink (id : Nat) (users : List TimeoutUser) : List TimeoutUser :=
  users.filter fun user => user.id != id

def State.pending (s : State) : List TimeoutUser :=
  s.absTimeoutList ++ s.relTimeoutList ++ s.expiredList

def removeTimeoutUser (s : State) (id : Nat) : Option State :=
  if id ∈ s.pending.map TimeoutUser.id then
    some { s with
      absTimeoutList := unlink id s.absTimeoutList
      relTimeoutList := unlink id s.relTimeoutList
      expiredList := unlink id s.expiredList
      removed := id :: s.removed }
  else none

/-- What a callback, or any other code of the server, does to the timeouts. -/
inductive Edit
  | add (when : Int) (memOk : Bool)
  | remove (id : Nat)
  deriving DecidableEq, Repr

def edit (s : State) : Edit → Option State
  | .add when memOk => some (addTimeoutUser s when memOk)
  | .remove id => removeTimeoutUser s id

abbrev Callback := State → TimeoutUser → List Edit

/-- The loop that moves the expired head of a list to the tail of `expired_list`. -/
def moveExpired (expired : TimeoutUser → Bool) :
    List TimeoutUser → List TimeoutUser → List TimeoutUser × List TimeoutUser
  | [], expiredList => ([], expiredList)
  | timeout :: timeouts, expiredList =>
    if expired timeout then moveExpired expired timeouts (expiredList ++ [timeout])
    else (timeout :: timeouts, expiredList)

/-- The loop over `expired_list`, which only gets shorter: the number bounds its length. -/
def runCallbacks (callback : Callback) : Nat → State → Option State
  | 0, s => some s
  | n + 1, s =>
    match s.expiredList with
    | [] => some s
    | timeout :: expiredList =>
      let s := { s with
        expiredList := expiredList
        calls := ⟨timeout.id, s.currentTime, s.monotonicTime⟩ :: s.calls }
      (run edit s (callback s timeout)).bind (runCallbacks callback n)

def absExpired (currentTime : Int) (timeout : TimeoutUser) : Bool :=
  decide (timeout.when ≤ currentTime)

def relExpired (monotonicTime : Int) (timeout : TimeoutUser) : Bool :=
  decide (wrap (-timeout.when) ≤ monotonicTime)

def collectExpired (s : State) : State :=
  let (absTimeoutList, expiredList) :=
    moveExpired (absExpired s.currentTime) s.absTimeoutList []
  let (relTimeoutList, expiredList) :=
    moveExpired (relExpired s.monotonicTime) s.relTimeoutList expiredList
  { s with
    absTimeoutList := absTimeoutList
    relTimeoutList := relTimeoutList
    expiredList := expiredList }

def nearer (ret diff : Int) : Int :=
  let diff := if diff < 0 then 0 else diff
  if ret = -1 ∨ diff < ret then diff else ret

def nextDelay (s : State) (ret : Int) : Int :=
  let ret :=
    match s.absTimeoutList with
    | [] => ret
    | timeout :: _ => nearer ret (wrap (timeout.when - s.currentTime))
  match s.relTimeoutList with
  | [] => ret
  | timeout :: _ => nearer ret (wrap (wrap (-timeout.when) - s.monotonicTime))

structure Timespec where
  tvSec : Int
  tvNsec : Int
  deriving DecidableEq, Repr

/-- The delay in milliseconds, and what is stored for `ts`. -/
def delayResult (ret : Int) : Int × Option Timespec :=
  if ret = -1 then (-1, none)
  else
    let ts : Timespec := ⟨ret.tdiv ticksPerSec, ret.tmod ticksPerSec * 100⟩
    let ret := (wrap (ret + 9999)).tdiv 10000
    (toInt (if intMax < ret then intMax else ret), some ts)

def getNextTimeout (callback : Callback) (s : State) : Option (State × Int × Option Timespec) :=
  let ret := if s.userSharedData then userSharedDataTimeout else -1
  if s.absTimeoutList ≠ [] ∨ s.relTimeoutList ≠ [] then
    let s := collectExpired s
    match runCallbacks callback s.expiredList.length s with
    | none => none
    | some s => some (s, delayResult (nextDelay s ret))
  else some (s, delayResult ret)

inductive Op
  | setCurrentTime (currentTime monotonicTime : Int)
  | mapUserSharedData
  | edit (e : Edit)
  | getNextTimeout (callback : Callback)

def step (s : State) : Op → Option State
  | .setCurrentTime currentTime monotonicTime =>
    some { s with currentTime := currentTime, monotonicTime := monotonicTime }
  | .mapUserSharedData => some { s with userSharedData := true }
  | .edit e => edit s e
  | .getNextTimeout callback => (getNextTimeout callback s).map Prod.fst

def initial : State where
  absTimeoutList := []
  relTimeoutList := []
  expiredList := []
  currentTime := 0
  monotonicTime := 0
  userSharedData := false
  nextId := 0
  requests := []
  calls := []
  removed := []

end WineForge.Timeouts
