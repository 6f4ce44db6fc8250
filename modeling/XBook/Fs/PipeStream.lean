import XBook.Fs.PipeEof

/-!
# A pipe as a stream

A pipe or FIFO with one task at each end, in the steps of `Fs.Pipe`. `StreamInv` says where the
bytes are that the writer has been given: read, in the queue, left to the writer's call, or lost
behind the close of the read end. No guard is needed: an item that a task is about to move is still
there, as nobody else moves items of its side.
-/

namespace XBook.Pipes

open IoTasks (Side Place IoQueueTasks)
open IoTasks.IoQueueTasks (set_frames_frames set_frames_top)
open Transition

variable {Tid : Type*} [DecidableEq Tid]

/-- The bytes that a task is given to write. -/
def PipeOp.given (kind : PipeKind) : PipeOp Tid → List UInt8
  | .write _ bytes => kind.written bytes
  | .read _ _ | .advance _ | .close _ _ | .release _ _ => []

namespace PipeTasks

/-- The bytes that are left of a call. -/
def left (s : PipeTasks Tid) : Option Call → List UInt8
  | some (.writeLoop bytes) => bytes
  | some (.writeTest bytes) => if 0 < s.reference .get then s.kind.written bytes else []
  | _ => []

/-- The bytes that have come out of the queue. -/
def received (s : PipeTasks Tid) : List UInt8 := s.data.gets.map UInt8.ofNat

end PipeTasks

/-! ## The places in the queue -/

section Places

variable {s t : IoQueueTasks Tid} {p q : Tid} {k : Side}

/-- The task that `SemaphoreUp` lets go on is behind the lock. -/
theorem semaphore_up_to_move (h : s.semaphoreUp.top q = some (.toMove k)) :
    s.top q = some (.toMove k) := by
  unfold IoQueueTasks.semaphoreUp at h
  split at h
  · exact h
  · next r waitList _ =>
      split at h
      · next j l hframes =>
          have htop : (s.setFrames r (.granted j :: l)).top q = some (.toMove k) := h
          rw [set_frames_top] at htop
          split at htop
          · cases htop
          · exact htop
      · exact h

/-- The task that `IoQueueWakeUp` lets go on still has to unlock. -/
theorem io_queue_wake_up_to_move {j : Side} (h : s.ioQueueWakeUp j = some t)
    (hq : t.top q = some (.toMove k)) : s.top q = some (.toMove k) := by
  unfold IoQueueTasks.ioQueueWakeUp at h
  split at h
  · cases h
    exact hq
  · next r _ =>
      split at h
      · next i l hframes =>
          cases h
          have htop : (s.setFrames r (.toUnlock i :: l)).top q = some (.toMove k) := hq
          rw [set_frames_top] at htop
          split at htop
          · cases htop
          · exact htop
      · cases h

/-- The places of all tasks behind a step that sets one. -/
theorem set_frames_to_move {frames : List Place} (hne : frames.head? ≠ some (.toMove k))
    (hq : (s.setFrames p frames).top q = some (.toMove k)) :
    q ≠ p ∧ s.top q = some (.toMove k) := by
  rw [set_frames_top] at hq
  split at hq
  · exact absurd hq hne
  · next hqp => exact ⟨hqp, hq⟩

/-- A task is about to move its item when it has just passed the test, or was about to before. -/
theorem frame_step_to_move {place : Place} (h : s.frameStep p [] place = some t)
    (hq : t.top q = some (.toMove k)) :
    (q = p ∧ s.closed k = false) ∨ (q ≠ p ∧ s.top q = some (.toMove k)) := by
  -- All but the test put the task at a place that is not before a move.
  have hother : ∀ frames : List Place, frames.head? ≠ some (.toMove k) →
      (s.setFrames p frames).top q = some (.toMove k) →
      (q = p ∧ s.closed k = false) ∨ (q ≠ p ∧ s.top q = some (.toMove k)) :=
    fun _ hne htop => .inr (set_frames_to_move hne htop)
  cases place with
  | test j =>
      cases h
      by_cases hclosed : s.closed j = true
      · rw [if_pos hclosed] at hq
        exact hother _ (by simp) hq
      · rw [if_neg hclosed, set_frames_top] at hq
        split at hq
        · next hqp =>
            cases hq
            exact .inl ⟨hqp, Bool.eq_false_of_not_eq_true hclosed⟩
        · next hqp => exact .inr ⟨hqp, hq⟩
  | toLock j =>
      simp only [IoQueueTasks.frameStep] at h
      split at h
      · cases h
        exact hother [.toWait j] (by simp) hq
      · split at h
        · cases h
          exact hother [.granted j] (by simp) hq
        · cases h
          exact hother [.onLock j] (by simp) hq
  | onLock j => cases h
  | granted j =>
      simp only [IoQueueTasks.frameStep] at h
      split at h
      · cases h
        exact hother [.toWait j] (by simp) hq
      · cases h
  | toWait j =>
      simp only [IoQueueTasks.frameStep] at h
      split at h
      · cases h
        exact hother [.waiting j] (by simp) hq
      · cases h
  | waiting j => cases h
  | toUnlock j =>
      simp only [IoQueueTasks.frameStep] at h
      split at h
      · split at h
        · cases h
          exact hother [.test j] (by simp) hq
        · split at h
          · cases h
            have htop := semaphore_up_to_move hq
            exact hother [.test j] (by simp) htop
          · cases h
      · cases h
  | toMove j =>
      cases h
      have htop : (s.setFrames p [.toWake j]).top q = some (.toMove k) := by
        cases j <;> exact hq
      exact hother _ (by simp) htop
  | toWake j =>
      obtain ⟨u, hu, rfl⟩ := Option.map_eq_some_iff.mp h
      obtain ⟨hqp, htop⟩ := set_frames_to_move (by simp) hq
      exact .inr ⟨hqp, io_queue_wake_up_to_move hu htop⟩

end Places

/-! ## The invariant -/

/-- Where the bytes are that the writer has been given: some have been put, some are left of its
call, and some are lost, which happens only behind the close of the read end. -/
structure StreamInv (kind : PipeKind) (ends : Side → Tid) (given : List UInt8)
    (s : PipeTasks Tid) : Prop where
  kind : s.kind = kind
  fits : ∀ p, Fits (s.io.frames p) (s.calls p)
  opened : ∀ k p, s.opened k p = true → p = ends k
  own : ∀ p call, s.calls p = some call → p = ends call.side
  data : DataInv s
  room : ∀ p k, s.io.top p = some (.toMove k) → s.io.Open k
  sent : ∃ lost, s.data.puts ++ (s.left (s.calls (ends .put)) ++ lost).map UInt8.toNat =
      given.map UInt8.toNat ∧ (0 < s.reference .get → lost = [])

variable {kind : PipeKind} {ends : Side → Tid} {given : List UInt8}

section Steps

variable {s t : PipeTasks Tid} {p : Tid}

omit [DecidableEq Tid] in
/-- A task with no call is not in the queue. -/
theorem StreamInv.idle (h : StreamInv kind ends given s) (hp : s.calls p = none) :
    s.io.frames p = [] := by
  rcases h.fits p with hnil | ⟨place, c, -, hcall, -⟩
  · exact hnil
  · rw [hp] at hcall
    cases hcall

/-- The task, outside of the queue, comes to another point of its call, or returns. -/
theorem StreamInv.set_call (h : StreamInv kind ends given s) (hframes : s.io.frames p = [])
    {call : Option Call} {given' : List UInt8} (hown : ∀ c, call = some c → p = ends c.side)
    (hsent : ∃ lost, s.data.puts ++
        (s.left (Function.update s.calls p call (ends .put)) ++ lost).map UInt8.toNat =
      given'.map UInt8.toNat ∧ (0 < s.reference .get → lost = [])) :
    StreamInv kind ends given' (s.setCall p call) := by
  have hcalls : ∀ q, (s.setCall p call).calls q = if q = p then call else s.calls q :=
    fun q => Function.update_apply ..
  refine ⟨h.kind, ?_, h.opened, ?_, ⟨h.data.data, h.data.size, h.data.capacity⟩, h.room, hsent⟩
  · intro q
    rw [hcalls]
    split
    · next heq => exact .inl (heq ▸ hframes)
    · exact h.fits q
  · intro q c hc
    rw [hcalls] at hc
    split at hc
    · next heq => exact heq ▸ hown c hc
    · exact h.own q c hc

/-- Nothing is left of a call of the other task, and of a read. -/
theorem left_set_call {call : Option Call} (hleft : s.left call = s.left (s.calls p)) (q : Tid) :
    s.left (Function.update s.calls p call q) = s.left (s.calls q) := by
  by_cases heq : q = p
  · subst heq
    rw [Function.update_self]
    exact hleft
  · rw [Function.update_of_ne heq]

/-- A step within a call that leaves the same bytes. -/
theorem StreamInv.same_left (h : StreamInv kind ends given s) (hframes : s.io.frames p = [])
    {call : Option Call} (hown : ∀ c, call = some c → p = ends c.side)
    (hleft : s.left call = s.left (s.calls p)) :
    StreamInv kind ends given (s.setCall p call) := by
  refine h.set_call hframes hown ?_
  rw [left_set_call hleft]
  exact h.sent

/-- The task enters the queue for an item that it needs. -/
theorem StreamInv.enter (h : StreamInv kind ends given s) {c : Call} (hcall : s.calls p = some c)
    (hneed : 0 < c.need) : StreamInv kind ends given (s.enter p c.side) := by
  refine ⟨h.kind, ?_, h.opened, h.own, ⟨h.data.data, h.data.size, h.data.capacity⟩, ?_, h.sent⟩
  · intro q
    show Fits ((s.io.setFrames p [.test c.side]).frames q) (s.calls q)
    rw [set_frames_frames]
    split
    · next heq => exact .inr ⟨_, c, rfl, heq ▸ hcall, rfl, fun _ => hneed⟩
    · exact h.fits q
  · intro q k hq
    exact h.room q k (set_frames_to_move (by simp) hq).2

omit [DecidableEq Tid] in
/-- Nothing is left of a read. -/
theorem left_read (s : PipeTasks Tid) {c : Call} (hc : c.side = .get) : s.left (some c) = [] := by
  cases c with
  | writeTest bytes => cases hc
  | writeLoop bytes => cases hc
  | _ => rfl

/-- A call goes on, or into the queue. -/
theorem StreamInv.call_step (h : StreamInv kind ends given s) (hframes : s.io.frames p = [])
    {c : Call} (hcall : s.calls p = some c) : StreamInv kind ends given (s.callStep p c) := by
  have hown := h.own p c hcall
  have hread : ∀ d : Call, d.side = .get → c.side = .get →
      s.left (some d) = s.left (s.calls p) := by
    intro d hd hc
    rw [hcall, left_read s hd, left_read s hc]
  have hdone : s.left (some c) = [] → StreamInv kind ends given (s.setCall p none) := by
    intro hnone
    refine h.same_left hframes (fun d hd => by cases hd) ?_
    rw [hcall, hnone]
    rfl
  cases c with
  | readTest count =>
      simp only [PipeTasks.callStep]
      split
      · exact h.same_left hframes (fun d hd => by cases hd; exact hown) (hread _ rfl rfl)
      · exact h.same_left hframes (fun d hd => by cases hd; exact hown) (hread _ rfl rfl)
  | readFirst count => exact h.enter hcall Nat.zero_lt_one
  | readLength count =>
      exact h.same_left hframes (fun d hd => by cases hd; exact hown) (hread _ rfl rfl)
  | readRest count =>
      have hset : StreamInv kind ends given
          (s.setCall p (some (.readLoop (s.kind.rest count s.data.queue.size)))) :=
        h.same_left hframes (fun d hd => by cases hd; exact hown) (hread _ rfl rfl)
      exact ⟨hset.kind, hset.fits, hset.opened, hset.own,
        ⟨hset.data.data, hset.data.size, hset.data.capacity⟩, hset.room, hset.sent⟩
  | readLoop len =>
      cases len with
      | zero => exact hdone rfl
      | succ len => exact h.enter hcall (Nat.succ_pos len)
  | writeTest bytes =>
      simp only [PipeTasks.callStep]
      split
      · next hpos =>
          refine h.same_left hframes (fun d hd => by cases hd; exact hown) ?_
          rw [hcall]
          exact (if_pos hpos).symm
      · next hpos => exact hdone (if_neg hpos)
  | writeLoop bytes =>
      cases bytes with
      | nil => exact hdone rfl
      | cons byte bytes => exact h.enter hcall (Nat.succ_pos bytes.length)

/-! ## The steps in the queue -/

omit [DecidableEq Tid] in
/-- What is not full has room, and what is not empty has an item. -/
theorem StreamInv.open_of_not_closed (h : StreamInv kind ends given s) {k : Side}
    (hk : s.io.closed k = false) : s.io.Open k := by
  have hsize := h.data.size
  have hle := h.data.size_le
  have hcap := h.data.capacity
  cases k with
  | put =>
      have hne : ¬s.io.size = s.io.capacity := of_decide_eq_false hk
      show s.io.size < s.io.capacity
      omega
  | get =>
      have hne : ¬s.io.size = 0 := of_decide_eq_false hk
      show 0 < s.io.size
      omega

/-- A task goes on in the queue, without an item that moves. -/
theorem StreamInv.frame (h : StreamInv kind ends given s) {place : Place} {io : IoQueueTasks Tid}
    (hframes : s.io.frames p = [place]) (hplace : ∀ k, place ≠ .toMove k)
    (hstep : s.io.frameStep p [] place = some io) : StreamInv kind ends given { s with io } := by
  obtain ⟨hgoes, hstays, hcapacity⟩ := frame_step_stays hframes hstep
  have hsize : io.size = s.io.size := by
    rw [frame_step_size hstep]
    cases place with
    | toMove k => exact absurd rfl (hplace k)
    | _ => rfl
  refine ⟨h.kind, ?_, h.opened, h.own, ?_, ?_, h.sent⟩
  · intro q
    by_cases heq : q = p
    · subst heq
      have hfits := h.fits q
      rw [hframes] at hfits
      cases place with
      | toMove k => exact absurd rfl (hplace k)
      | toWake k => exact .inl hgoes
      | _ => exact hfits.stays hgoes
    · exact (h.fits q).stays (hstays q heq)
  · exact ⟨h.data.data, hsize.trans h.data.size, hcapacity.trans h.data.capacity⟩
  · intro q k hq
    have hopen : s.io.Open k := by
      rcases frame_step_to_move hstep hq with ⟨-, hclosed⟩ | ⟨-, htop⟩
      · exact h.open_of_not_closed hclosed
      · exact h.room q k htop
    cases k with
    | put =>
        show io.size < io.capacity
        rw [hsize, hcapacity]
        exact hopen
    | get =>
        show 0 < io.size
        rw [hsize]
        exact hopen

/-- An item of a call has moved. -/
theorem StreamInv.moved_item (h : StreamInv kind ends given s) {k : Side} {c d : Call}
    {io : IoQueueTasks Tid} {data : IoQueueTrace} (hframes : s.io.frames p = [.toMove k])
    (hcall : s.calls p = some c) (hstep : s.io.frameStep p [] (.toMove k) = some io)
    (hc : c.side = k) (hd : d.side = k) (hdata : DataInv { s with io, data })
    (hroom : ∀ q j, q ≠ p → s.io.top q = some (.toMove j) → io.Open j)
    (hsent : ∃ lost, data.puts ++
        (s.left (Function.update s.calls p (some d) (ends .put)) ++ lost).map UInt8.toNat =
      given.map UInt8.toNat ∧ (0 < s.reference .get → lost = [])) :
    StreamInv kind ends given ({ s with io, data }.setCall p (some d)) := by
  have hcalls : ∀ q, ({ s with io, data }.setCall p (some d)).calls q =
      if q = p then some d else s.calls q := fun q => Function.update_apply ..
  obtain ⟨hgoes, hstays, -⟩ := frame_step_stays hframes hstep
  refine ⟨h.kind, ?_, h.opened, ?_, ⟨hdata.data, hdata.size, hdata.capacity⟩, ?_, hsent⟩
  · intro q
    rw [hcalls]
    split
    · next heq =>
        rw [heq]
        exact .inr ⟨.toWake k, d, hgoes, rfl, hd.symm, fun hfalse => by cases hfalse⟩
    · next heq => exact (h.fits q).stays (hstays q heq)
  · intro q e he
    rw [hcalls] at he
    split at he
    · next heq =>
        cases he
        rw [heq, hd, ← hc]
        exact h.own p c hcall
    · exact h.own q e he
  · intro q j hq
    rcases frame_step_to_move hstep hq with ⟨heq, -⟩ | ⟨hne, htop⟩
    · -- The task itself is behind its move.
      have hwake : io.top p = some (.toWake k) := by
        show (io.frames p).head? = _
        rw [hgoes]
        rfl
      rw [heq] at hq
      exact absurd (hwake.symm.trans hq) (by simp)
    · exact hroom q j hne htop

omit [DecidableEq Tid] in
/-- Another task that is about to move an item is at the other end. -/
theorem StreamInv.other_side (h : StreamInv kind ends given s) {q : Tid} {c : Call} {j : Side}
    (hcall : s.calls p = some c) (hne : q ≠ p) (htop : s.io.top q = some (.toMove j)) :
    j = c.side.other := by
  rcases h.fits q with hnil | ⟨place, d, hone, hd, hplace, -⟩
  · rw [IoQueueTasks.top, hnil] at htop
    cases htop
  · rw [IoQueueTasks.top, hone] at htop
    cases htop
    have hq := h.own q d hd
    have hp := h.own p c hcall
    rcases c.side.eq_or_other j with heq | hother
    · have hsame : d.side = c.side := hplace.symm.trans heq
      exact absurd (hq.trans ((congrArg ends hsame).trans hp.symm)) hne
    · exact hother

/-- The byte of a read comes out of the queue. -/
theorem StreamInv.get_byte (h : StreamInv kind ends given s) {c d : Call} {io : IoQueueTasks Tid}
    (hframes : s.io.frames p = [.toMove .get]) (hcall : s.calls p = some c)
    (hstep : s.io.frameStep p [] (.toMove .get) = some io) (hc : c.side = .get)
    (hd : d.side = .get) :
    StreamInv kind ends given (({ s with io }.getByte).setCall p (some d)) := by
  have hopen : 0 < s.io.size := h.room p .get (by rw [IoQueueTasks.top, hframes]; rfl)
  have hsize := h.data.size
  have hle := h.data.size_le
  obtain ⟨hdata, hless⟩ := h.data.get_byte (by omega)
  have hio : io.size = s.io.size - 1 := frame_step_size hstep
  have hcap := (frame_step_stays hframes hstep).2.2
  refine h.moved_item hframes hcall hstep hc hd ⟨hdata, ?_, hcap.trans h.data.capacity⟩ ?_ ?_
  · show io.size = (s.getByte.data.queue.size : Int)
    omega
  · intro q j hne htop
    have hj := h.other_side hcall hne htop
    rw [hc] at hj
    subst hj
    show io.size < io.capacity
    have hcapacity := h.data.capacity
    omega
  · rw [left_set_call (by rw [hcall, left_read s hd, left_read s hc])]
    exact h.sent

/-- The byte of a write goes into the queue. -/
theorem StreamInv.put_byte (h : StreamInv kind ends given s) {byte : UInt8} {bytes : List UInt8}
    {io : IoQueueTasks Tid} (hframes : s.io.frames p = [.toMove .put])
    (hcall : s.calls p = some (.writeLoop (byte :: bytes)))
    (hstep : s.io.frameStep p [] (.toMove .put) = some io) :
    StreamInv kind ends given
      (({ s with io }.putByte byte).setCall p (some (.writeLoop bytes))) := by
  have hopen : s.io.size < s.io.capacity := h.room p .put (by rw [IoQueueTasks.top, hframes]; rfl)
  have hsize := h.data.size
  have hcapacity := h.data.capacity
  obtain ⟨hdata, hmore⟩ := h.data.put_byte (by omega) byte
  have hio : io.size = s.io.size + 1 := frame_step_size hstep
  have hcap := (frame_step_stays hframes hstep).2.2
  have hp : p = ends .put := h.own p _ hcall
  refine h.moved_item hframes hcall hstep rfl rfl ⟨hdata, ?_, hcap.trans h.data.capacity⟩ ?_ ?_
  · show io.size = ((s.putByte byte).data.queue.size : Int)
    omega
  · intro q j hne htop
    have hj := h.other_side hcall hne htop
    subst hj
    show 0 < io.size
    omega
  · obtain ⟨lost, hsent, hlost⟩ := h.sent
    refine ⟨lost, ?_, hlost⟩
    rw [← hp, hcall] at hsent
    rw [← hp, Function.update_self]
    show s.data.puts ++ [byte.toNat] ++ (bytes ++ lost).map UInt8.toNat = _
    rw [← hsent, List.append_assoc]
    rfl

/-- The item of a call moves. -/
theorem StreamInv.move (h : StreamInv kind ends given s) {k : Side} {c : Call}
    {io : IoQueueTasks Tid} (hframes : s.io.frames p = [.toMove k])
    (hcall : s.calls p = some c) (hstep : s.io.frameStep p [] (.toMove k) = some io) :
    StreamInv kind ends given ({ s with io }.move p c) := by
  obtain ⟨rfl, hpos⟩ : k = c.side ∧ 0 < c.need := by
    rcases h.fits p with hnil | ⟨place, c', hone, hcall', hplace, hneed⟩
    · rw [hnil] at hframes
      cases hframes
    · rw [hframes] at hone
      rw [hcall] at hcall'
      cases hone
      cases hcall'
      exact ⟨hplace, hneed rfl⟩
  cases c with
  | readTest count => cases hpos
  | readFirst count => exact h.get_byte hframes hcall hstep rfl rfl
  | readLength count => cases hpos
  | readRest count => cases hpos
  | readLoop len =>
      cases len with
      | zero => cases hpos
      | succ len => exact h.get_byte hframes hcall hstep rfl rfl
  | writeTest bytes => cases hpos
  | writeLoop bytes =>
      cases bytes with
      | nil => cases hpos
      | cons byte bytes => exact h.put_byte hframes hcall hstep

/-! ## Closing an end -/

/-- The kind is the same, and no reference count has become positive. -/
structure CountsDown (s u : PipeTasks Tid) : Prop where
  kind : u.kind = s.kind
  reference : ∀ j, 0 < u.reference j → 0 < s.reference j

/-- A count that is set to less. -/
theorem count_down {reference : Side → Int} {k : Side} {n : Int}
    (hn : 0 < n → 0 < reference k) (j : Side)
    (hj : 0 < Function.update reference k n j) : 0 < reference j := by
  by_cases heq : j = k
  · subst heq
    rw [Function.update_self] at hj
    exact hn hj
  · rw [Function.update_of_ne heq] at hj
    exact hj

omit [DecidableEq Tid] in
theorem pipe_close_counts (s : PipeTasks Tid) (k : Side) : CountsDown s (s.pipeClose k) := by
  rw [pipe_close_eq]
  refine ⟨rfl, fun j hj => ?_⟩
  have hj : 0 < (if s.fileReference k ≤ 1 then Function.update s.reference k 0
      else s.reference) j := hj
  by_cases hlast : s.fileReference k ≤ 1
  · rw [if_pos hlast] at hj
    exact count_down (fun hfalse => absurd hfalse (by decide)) j hj
  · rw [if_neg hlast] at hj
    exact hj

theorem fifo_close_counts (s : PipeTasks Tid) (p : Tid) : CountsDown s (s.fifoClose p) := by
  unfold PipeTasks.fifoClose
  split
  · exact ⟨rfl, fun _ hj => hj⟩
  · next k _ => exact ⟨rfl, fun j hj => count_down (fun hpos => by omega) j hj⟩

theorem close_counts (s : PipeTasks Tid) (p : Tid) (k : Side) : CountsDown s (s.close p k) := by
  unfold PipeTasks.close
  split
  · exact ⟨(pipe_close_counts s k).kind, (pipe_close_counts s k).reference⟩
  · exact ⟨(fifo_close_counts s p).kind, (fifo_close_counts s p).reference⟩

theorem release_counts (s : PipeTasks Tid) (p : Tid) (k : Side) : CountsDown s (s.release p k) := by
  unfold PipeTasks.release
  split
  · dsimp only
    split
    · exact ⟨(pipe_close_counts _ k).kind, (pipe_close_counts _ k).reference⟩
    · exact ⟨rfl, fun _ hj => hj⟩
  · exact ⟨(fifo_close_counts s p).kind, (fifo_close_counts s p).reference⟩

omit [DecidableEq Tid] in
/-- Bytes are lost when the read end is closed under a write that has not looked at it. -/
theorem left_closed {u : PipeTasks Tid} (hcounts : CountsDown s u) (call : Option Call) :
    u.left call = s.left call ∨ (u.left call = [] ∧ ¬0 < u.reference .get) := by
  by_cases hpos : 0 < u.reference .get
  · left
    unfold PipeTasks.left
    rw [hcounts.kind]
    split
    · rfl
    · rw [if_pos hpos, if_pos (hcounts.reference .get hpos)]
    · rfl
  · cases call with
    | none => exact .inl rfl
    | some c =>
        cases c with
        | writeTest bytes => exact .inr ⟨if_neg hpos, hpos⟩
        | _ => exact .inl rfl

/-- A task closes an end. -/
theorem StreamInv.close_end (h : StreamInv kind ends given s) {u : PipeTasks Tid} {k : Side}
    (hsame : SameInside s u) (hcounts : CountsDown s u)
    (hopened : u.opened = Function.update s.opened k (Function.update (s.opened k) p false)) :
    StreamInv kind ends given u := by
  obtain ⟨hio, hdata, hcalls, -⟩ := hsame
  refine ⟨hcounts.kind.trans h.kind, ?_, ?_, ?_, ?_, ?_, ?_⟩
  · intro q
    rw [hio, hcalls]
    exact h.fits q
  · intro j q hq
    rw [hopened] at hq
    by_cases hjk : j = k
    · subst hjk
      rw [Function.update_self] at hq
      by_cases hqp : q = p
      · rw [hqp, Function.update_self] at hq
        cases hq
      · rw [Function.update_of_ne hqp] at hq
        exact h.opened j q hq
    · rw [Function.update_of_ne hjk] at hq
      exact h.opened j q hq
  · rw [hcalls]
    exact h.own
  · refine ⟨?_, ?_, ?_⟩
    · rw [hdata]
      exact h.data.data
    · rw [hio, hdata]
      exact h.data.size
    · rw [hio]
      exact h.data.capacity
  · rw [hio]
    exact h.room
  · obtain ⟨lost, hsent, hlost⟩ := h.sent
    rw [hdata, hcalls]
    rcases left_closed hcounts (s.calls (ends .put)) with hsame | ⟨hnone, hnot⟩
    · exact ⟨lost, by rw [hsame]; exact hsent, fun hpos => hlost (hcounts.reference .get hpos)⟩
    · refine ⟨s.left (s.calls (ends .put)) ++ lost, ?_, fun hpos => absurd hpos hnot⟩
      rw [hnone]
      exact hsent

/-! ## Runs -/

omit [DecidableEq Tid] in
/-- A task is in one call of the queue at a time. -/
theorem StreamInv.alone (h : StreamInv kind ends given s) {place : Place} {rest : List Place}
    (hframes : s.io.frames p = place :: rest) : rest = [] := by
  rcases h.fits p with hnil | ⟨place', c, hone, -, -, -⟩
  · rw [hnil] at hframes
    cases hframes
  · rw [hone] at hframes
    cases hframes
    rfl

/-- A step of any task keeps the invariant. -/
theorem StreamInv.step (h : StreamInv kind ends given s) {op : PipeOp Tid}
    (hstep : stepOf pipeStep s op t) : StreamInv kind ends (given ++ op.given kind) t := by
  cases op with
  | read p count =>
      rw [show (PipeOp.read p count).given kind = [] from rfl, List.append_nil]
      simp only [stepOf, pipeStep] at hstep
      split at hstep
      · next hcan =>
          cases hstep
          refine h.same_left (h.idle hcan.1) (fun c hc => ?_) (by rw [hcan.1]; rfl)
          cases hc
          exact h.opened .get p hcan.2
      · cases hstep
  | write p bytes =>
      simp only [stepOf, pipeStep] at hstep
      split at hstep
      · next hcan =>
          cases hstep
          have hp := h.opened .put p hcan.2
          refine h.set_call (h.idle hcan.1) (fun c hc => ?_) ?_
          · cases hc
            exact hp
          · -- All of the bytes are still to be put, or none of them will be.
            obtain ⟨lost, hsent, hlost⟩ := h.sent
            rw [← hp, hcan.1] at hsent
            rw [← hp, Function.update_self]
            show ∃ lost, s.data.puts ++
                ((if 0 < s.reference .get then s.kind.written bytes else []) ++
                  lost).map UInt8.toNat =
              (given ++ kind.written bytes).map UInt8.toNat ∧ _
            rw [h.kind, @List.map_append _ _ _ given, ← hsent]
            by_cases hpos : 0 < s.reference .get
            · refine ⟨[], ?_, fun _ => rfl⟩
              rw [if_pos hpos, hlost hpos]
              simp [PipeTasks.left]
            · refine ⟨lost ++ kind.written bytes, ?_, fun h => absurd h hpos⟩
              rw [if_neg hpos]
              simp [PipeTasks.left]
      · cases hstep
  | advance p =>
      rw [show (PipeOp.advance p).given kind = [] from rfl, List.append_nil]
      simp only [stepOf, pipeStep] at hstep
      split at hstep
      · cases hstep
      · next call hcall hframes =>
          cases hstep
          exact h.call_step hframes hcall
      · next call k rest hcall hframes =>
          obtain ⟨io, hio, rfl⟩ := Option.map_eq_some_iff.mp hstep
          obtain rfl := h.alone hframes
          exact h.move hframes hcall hio
      · next call place rest hplace hcall hframes =>
          obtain ⟨io, hio, rfl⟩ := Option.map_eq_some_iff.mp hstep
          obtain rfl := h.alone hframes
          exact h.frame hframes (fun k heq => hplace k heq) hio
  | close p k =>
      rw [show (PipeOp.close p k).given kind = [] from rfl, List.append_nil]
      simp only [stepOf, pipeStep] at hstep
      split at hstep
      · cases hstep
        obtain ⟨hsame, hopened⟩ := close_same s p k
        exact h.close_end hsame (close_counts s p k) hopened
      · cases hstep
  | release p k =>
      rw [show (PipeOp.release p k).given kind = [] from rfl, List.append_nil]
      simp only [stepOf, pipeStep] at hstep
      split at hstep
      · cases hstep
        obtain ⟨hsame, hopened⟩ := release_same s p k
        exact h.close_end hsame (release_counts s p k) hopened
      · cases hstep

/-- What a run adds to what has been given. -/
theorem StreamInv.run {ops : List (PipeOp Tid)} (hrun : Run (stepOf pipeStep) anyLabel s ops t)
    (h : StreamInv kind ends given s) :
    StreamInv kind ends (given ++ ops.flatMap (PipeOp.given kind)) t := by
  induction hrun generalizing given with
  | nil s =>
      rw [List.flatMap_nil, List.append_nil]
      exact h
  | cons _ hstep _ ih =>
      rw [List.flatMap_cons, ← List.append_assoc]
      exact ih (h.step hstep)

end Steps

theorem stream_inv_init [Fintype Tid] {tasks : Side → List (Option Tid)}
    (hends : ∀ k p, some p ∈ tasks k → p = ends k) (buf : Nat → Nat) :
    StreamInv kind ends [] (.init kind tasks buf) := by
  refine ⟨rfl, fun _ => .inl rfl, ?_, ?_, ?_, ?_, ?_⟩
  · intro k p hp
    exact hends k p (of_decide_eq_true hp)
  · intro p c hc
    cases hc
  · exact ⟨⟨[], io_queue_inv_init buf pipeSize 1, rfl⟩, rfl, rfl⟩
  · intro p k hk
    cases hk
  · exact ⟨[], rfl, fun _ => rfl⟩

/-- What the reader has stored is the beginning of what the writer has been given, and the bytes of
the queue are behind it. Nothing else is missing when the writer has returned and the read end is
open. -/
def Streams (s : PipeTasks Tid) (writer : Tid) (given : List UInt8) : Prop :=
  ∃ content rest, given = s.received ++ content ++ rest ∧
    content.length = s.data.queue.size ∧ content.length ≤ pipeSize ∧
    (s.calls writer = none → 0 < s.reference .get → rest = [])

/-- The task at each end. -/
def endTask : Side → Fin 2
  | .get => 0
  | .put => 1

/-- The reader waits for a byte, the writer puts two, and the reader takes one of them. -/
def waitThenWrite : List (PipeOp (Fin 2)) :=
  .read 0 1 :: turns 0 6 ++ .write 1 [7, 8] :: turns 1 10 ++ turns 0 6

end XBook.Pipes
