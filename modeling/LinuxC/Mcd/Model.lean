import Mathlib.Data.Fintype.Basic
import Mathlib.Data.Fintype.Pi
import Mathlib.Logic.Function.Basic
import LinuxC.Framework.Transition

/-!
# Synchronisation and votes in `sample/mc-daemon`

The daemon waits for its system subscribers with five objects: three `struct mc_synchor` that
collect acknowledgements and two `struct mc_referee` that collect votes.  A subscriber has an index;
`full_bitmap` has the bits of the system subscribers, and every object has a bitmap of those that
have answered.  A thread waits on the condition variable of the object until its bitmap is
`full_bitmap`.

A step is a section that runs under `mc->mutex`, or the end of a wait; the checks that a handler
makes before it takes the mutex are part of its step.  There are no spurious wake-ups: a thread that
is `blocked` goes on after a broadcast or when its time is over, in any order.  A thread that was
woken carries the two bitmaps of that moment; the code does not look at them.

The handles of the clients and the threads are arbitrary types.  An index is less than
`MC_CLIENT_MAX`; when all of them are taken `first_bit_zero` runs off the map and there is no step.
-/

namespace LinuxC.Mcd

/-- `MC_CLIENT_MAX`, two words of 64 bits. -/
def mcClientMax : ℕ := 128

/-- `unsigned long [MC_BITMAP_SIZE]`. -/
def Bitmap : Type := Fin mcClientMax → Bool

instance : DecidableEq Bitmap := inferInstanceAs (DecidableEq (Fin mcClientMax → Bool))

def setBit (i : Fin mcClientMax) (b : Bitmap) : Bitmap := Function.update b i true

def clearBit (i : Fin mcClientMax) (b : Bitmap) : Bitmap := Function.update b i false

/-- A bitmap that was cleared by `memset`. -/
def noBits : Bitmap := fun _ => false

def firstBitZero (b : Bitmap) : Option (Fin mcClientMax) :=
  (List.finRange mcClientMax).find? fun i => !b i

/-! ## The daemon -/

/-- `MC_SYN_SLEEP`, `MC_SYN_RESUME` and `MC_SYN_REBOOT`. -/
inductive SynId
  | sleep
  | resume
  | reboot
  deriving DecidableEq, Repr

/-- `MC_APPLY_SLEEP` and `MC_APPLY_REBOOT`. -/
inductive ApplyId
  | sleep
  | reboot
  deriving DecidableEq, Repr

/-- The objects that threads wait on. -/
inductive Obj
  | sync (x : SynId)
  | vote (r : ApplyId)
  deriving DecidableEq, Repr

/-- `struct mc_synchor`, with the flag `AF_WAIT`. -/
structure McSynchor where
  wait : Bool
  ackBitmap : Bitmap

/-- `struct mc_referee`, with the flag `AF_WAIT`. -/
structure McReferee where
  wait : Bool
  voteBitmap : Bitmap
  voteApproved : Bitmap

/-- `struct mc_subscriber`, with the mask of its handle; `client` is the cookie type
`MC_IPC_COOKIE_CLIENT`. -/
structure McSubscriber where
  index : Fin mcClientMax
  mask : UInt64
  client : Bool

/-- `struct mc_struct`; `closing` are the flags `MC_F_REBOOT` and `MC_F_SHUTDOWN`. -/
structure McStruct where
  closing : Bool
  subscribers : ℕ
  indexStock : Bitmap
  fullBitmap : Bitmap
  synchor : SynId → McSynchor
  referee : ApplyId → McReferee

/-- Where a thread is. -/
inductive Phase
  | idle
  /-- In `pthread_cond_timedwait`. -/
  | blocked (o : Obj)
  /-- The wait is over, and the thread has not got the mutex yet. -/
  | woken (o : Obj) (timedout : Bool) (full own : Bitmap)
  deriving DecidableEq

/-- The object of the call that the thread is in. -/
def Phase.object : Phase → Option Obj
  | .idle => none
  | .blocked o => some o
  | .woken o _ _ _ => some o

/-- The daemon with the cookies of its handles and its threads. -/
structure World (P T : Type) where
  mc : McStruct
  cookie : P → Option McSubscriber
  thread : T → Phase

/-- What happens in a step. -/
inductive Event (P T : Type)
  /-- `mc_synchor_wait` has returned zero; the bitmaps are those of the moment when it was woken, or
  of its entry. -/
  | synced (t : T) (x : SynId) (full ack : Bitmap)
  /-- `mc_synchor_wait` has returned `ETIMEDOUT`. -/
  | unsynced (t : T) (x : SynId)
  /-- `mc_referee_wait` has returned `MC_APPLY_R_APPROVED`, or `MC_APPLY_R_UNAPPROVED`. -/
  | judged (t : T) (r : ApplyId) (approved : Bool)
  /-- A vote was taken down. -/
  | voted (p : P) (r : ApplyId) (approved : Bool)
  deriving DecidableEq

def mcGuardMask : UInt64 := 1

def mcSystemMask : UInt64 := 4

def supportedMask : UInt64 := 15

/-- `ipc_subscribed(sevr, MC_SYSTEM_MASK)`. -/
def McSubscriber.system (s : McSubscriber) : Bool := s.mask &&& mcSystemMask ≠ 0

/-- The bitmap of the object that is compared with `full_bitmap`. -/
def McStruct.own (mc : McStruct) : Obj → Bitmap
  | .sync x => (mc.synchor x).ackBitmap
  | .vote r => (mc.referee r).voteBitmap

/-- The flag `AF_WAIT` of the object. -/
def McStruct.wait (mc : McStruct) : Obj → Bool
  | .sync x => (mc.synchor x).wait
  | .vote r => (mc.referee r).wait

/-- `is_bitmap_full` for the object. -/
def McStruct.isFull (mc : McStruct) (o : Obj) : Prop := mc.own o = mc.fullBitmap

instance (mc : McStruct) (o : Obj) : Decidable (mc.isFull o) :=
  inferInstanceAs (Decidable (_ = _))

/-- Every bitmap is changed at once. -/
def McStruct.mapBits (f : Bitmap → Bitmap) (mc : McStruct) : McStruct :=
  { mc with
    fullBitmap := f mc.fullBitmap
    synchor := fun x => { mc.synchor x with ackBitmap := f (mc.synchor x).ackBitmap }
    referee := fun r =>
      { mc.referee r with
        voteBitmap := f (mc.referee r).voteBitmap
        voteApproved := f (mc.referee r).voteApproved } }

/-- The synchor `x` is changed. -/
def McStruct.setSynchor (x : SynId) (s : McSynchor) (mc : McStruct) : McStruct :=
  { mc with synchor := Function.update mc.synchor x s }

/-- The referee `r` is changed. -/
def McStruct.setReferee (r : ApplyId) (s : McReferee) (mc : McStruct) : McStruct :=
  { mc with referee := Function.update mc.referee r s }

def mcInit : McStruct where
  closing := false
  subscribers := 0
  indexStock := noBits
  fullBitmap := noBits
  synchor := fun _ => ⟨false, noBits⟩
  referee := fun _ => ⟨false, noBits, noBits⟩

variable {P T : Type} [DecidableEq P] [DecidableEq T]

/-- The daemon before the first client. -/
def World.init : World P T := ⟨mcInit, fun _ => none, fun _ => .idle⟩

/-- `pthread_cond_broadcast` on the condition variable of the object. -/
def World.broadcast (o : Obj) (w : World P T) : World P T :=
  { w with thread := fun t => match w.thread t with
      | .blocked o' => if o' = o then .woken o false w.mc.fullBitmap (w.mc.own o) else .blocked o'
      | p => p }

/-! ## Waiting -/

/-- `mc_synchor_wait` up to its wait. -/
def mcSynchorWait (t : T) (x : SynId) (w : World P T) : World P T × List (Event P T) :=
  let s := w.mc.synchor x
  let s := if s.wait then s else { s with ackBitmap := noBits }
  let mc := w.mc.setSynchor x s
  if mc.isFull (.sync x) then ({ w with mc }, [.synced t x mc.fullBitmap s.ackBitmap])
  else
    ({ w with
        mc := mc.setSynchor x { s with wait := true }
        thread := Function.update w.thread t (.blocked (.sync x)) }, [])

/-- The value of `mc_referee_wait`. -/
def McStruct.verdict (mc : McStruct) (r : ApplyId) : Bool :=
  decide ((mc.referee r).voteApproved = mc.fullBitmap)

/-- `mc_referee_wait` up to its wait. -/
def mcRefereeWait (t : T) (r : ApplyId) (w : World P T) : World P T × List (Event P T) :=
  let s := w.mc.referee r
  let s := if s.wait then s
    else { s with voteApproved := w.mc.fullBitmap, voteBitmap := noBits }
  let mc := w.mc.setReferee r s
  if mc.isFull (.vote r) then ({ w with mc }, [.judged t r (mc.verdict r)])
  else
    ({ w with
        mc := mc.setReferee r { s with wait := true }
        thread := Function.update w.thread t (.blocked (.vote r)) }, [])

/-- The rest of `mc_synchor_wait` or `mc_referee_wait`, after the wait. -/
def World.resume (t : T) (o : Obj) (timedout : Bool) (full own : Bitmap) (w : World P T) :
    World P T × List (Event P T) :=
  let thread := Function.update w.thread t .idle
  match o with
  | .sync x =>
      ({ w with mc := w.mc.setSynchor x { w.mc.synchor x with wait := false }, thread },
        [if timedout then .unsynced t x else .synced t x full own])
  | .vote r =>
      ({ w with mc := w.mc.setReferee r { w.mc.referee r with wait := false }, thread },
        [.judged t r (w.mc.verdict r)])

/-! ## The clients -/

/-- What `mc_ipc_register_process` meets: the name of the process is found, there is memory, and for
a client to be guarded the information is right. -/
structure RegisterEnv where
  named : Bool
  memory : Bool
  info : Bool

/-- `mc_ipc_register_process`, when the handle `p` registers with a mask. -/
def mcIpcRegisterProcess (p : P) (mask : UInt64) (env : RegisterEnv) (w : World P T) :
    Option (World P T) :=
  if w.mc.closing ∨ ¬ env.named ∨ mcClientMax ≤ w.mc.subscribers ∨ mask &&& supportedMask = 0 ∨
      mask &&& ~~~supportedMask ≠ 0 ∨ ¬ env.memory then some w
  else if mask &&& mcGuardMask ≠ 0 ∧ ¬ env.info then some w
  else
    (firstBitZero w.mc.indexStock).map fun index =>
      let indexStock := setBit index w.mc.indexStock
      if (w.cookie p).isSome then
        -- `ipc_server_bind` fails; the index is not given back
        { w with mc := { w.mc with indexStock } }
      else
        let s : McSubscriber := ⟨index, mask, mask &&& mcGuardMask ≠ 0⟩
        let mc := if s.system then w.mc.mapBits (setBit index) else w.mc
        { w with
          mc := { mc with indexStock, subscribers := w.mc.subscribers + 1 }
          cookie := Function.update w.cookie p (some s) }

/-- One of the five tests of `mc_ipc_release_process`: the threads that wait on `o` are woken when
the bitmap of `tested` is full. -/
def wakeIfFull (o tested : Obj) (w : World P T) : World P T :=
  if w.mc.wait o ∧ w.mc.isFull tested then w.broadcast o else w

/-- The section of `mc_ipc_release_process` for a system subscriber.  The second test is made on the
bitmap of `sync_reboot`. -/
def releaseSystem (index : Fin mcClientMax) (w : World P T) : World P T :=
  let w := { w with mc := w.mc.mapBits (clearBit index) }
  let w := wakeIfFull (.sync .sleep) (.sync .sleep) w
  let w := wakeIfFull (.sync .resume) (.sync .reboot) w
  let w := wakeIfFull (.sync .reboot) (.sync .reboot) w
  let w := wakeIfFull (.vote .sleep) (.vote .sleep) w
  wakeIfFull (.vote .reboot) (.vote .reboot) w

def mcIpcReleaseProcess (p : P) (w : World P T) : World P T :=
  match w.cookie p with
  | none => w
  | some s =>
      let w := if s.system then releaseSystem s.index w else w
      { w with
        mc :=
          { w.mc with
            indexStock := clearBit s.index w.mc.indexStock
            subscribers := w.mc.subscribers - 1 }
        cookie := Function.update w.cookie p none }

/-- The checks that `mcd_client_ack_msg` and `mcd_client_vote_msg` make of the sender. -/
def sender (p : P) (w : World P T) : Option McSubscriber :=
  (w.cookie p).filter fun s => s.client && s.system

/-- The end of the two handlers: the threads are woken when the bitmap is full. -/
def World.wakeAnswered (o : Obj) (w : World P T) : World P T :=
  if w.mc.isFull o ∧ w.mc.wait o then w.broadcast o else w

def mcdClientAckMsg (p : P) (x : SynId) (w : World P T) : World P T :=
  match sender p w with
  | none => w
  | some s =>
      let a := w.mc.synchor x
      let a := { a with ackBitmap := setBit s.index a.ackBitmap }
      { w with mc := w.mc.setSynchor x a }.wakeAnswered (.sync x)

def mcdClientVoteMsg (p : P) (r : ApplyId) (approved : Bool) (w : World P T) :
    World P T × List (Event P T) :=
  match sender p w with
  | none => (w, [])
  | some s =>
      let a := w.mc.referee r
      let a := { a with voteBitmap := setBit s.index a.voteBitmap }
      let a := if approved then a else { a with voteApproved := clearBit s.index a.voteApproved }
      ({ w with mc := w.mc.setReferee r a }.wakeAnswered (.vote r), [.voted p r approved])

/-! ## Steps -/

/-- The steps. -/
inductive Op (P T : Type)
  | register (p : P) (mask : UInt64) (env : RegisterEnv)
  | release (p : P)
  | ack (p : P) (x : SynId)
  | vote (p : P) (r : ApplyId) (approved : Bool)
  /-- `MC_EVENT_REBOOT` or `MC_EVENT_SHUTDOWN` is handled. -/
  | close
  | synchorWait (t : T) (x : SynId)
  | refereeWait (t : T) (r : ApplyId)
  /-- The time of a thread that waits is over. -/
  | timeout (t : T)
  /-- A thread that was woken gets the mutex. -/
  | resume (t : T)

/-- One step. -/
def step (w : World P T) : Op P T → Option (World P T × List (Event P T))
  | .register p mask env => (mcIpcRegisterProcess p mask env w).map fun w => (w, [])
  | .release p => some (mcIpcReleaseProcess p w, [])
  | .ack p x => some (mcdClientAckMsg p x w, [])
  | .vote p r approved => some (mcdClientVoteMsg p r approved w)
  | .close => some ({ w with mc := { w.mc with closing := true } }, [])
  | .synchorWait t x =>
      match w.thread t with
      | .idle => some (mcSynchorWait t x w)
      | _ => none
  | .refereeWait t r =>
      match w.thread t with
      | .idle => some (mcRefereeWait t r w)
      | _ => none
  | .timeout t =>
      match w.thread t with
      | .blocked o =>
          let phase := Phase.woken o true w.mc.fullBitmap (w.mc.own o)
          some ({ w with thread := Function.update w.thread t phase }, [])
      | _ => none
  | .resume t =>
      match w.thread t with
      | .woken o timedout full own => some (w.resume t o timedout full own)
      | _ => none

end LinuxC.Mcd
