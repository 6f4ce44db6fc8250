import XBook.Fs.Pipe
import XBook.Kernel.IoqueueProgress

/-!
# The end of a pipe

After the last close of an end the calls of the other end must find all that they still need.
`PipeInv` says so, with what the reference counts are and which tasks are inside. The guard
makes it hold at the close, and no step breaks it later: a call that looks at the pipe again sees
that the other end is closed.
-/

namespace XBook.Pipes

open IoTasks (Side Place IoQueueTasks BlockedIn)
open IoTasks.IoQueueTasks (set_frames_frames)
open Transition

variable {Tid : Type*} [DecidableEq Tid]

/-! ## The places in the queue -/

/-- The side of a place in the queue. -/
def placeSide : Place → Side
  | .test k | .toLock k | .onLock k | .granted k | .toWait k | .waiting k | .toUnlock k
  | .toMove k | .toWake k => k

/-- The item of the call has moved. -/
def moved : Place → Bool
  | .toWake _ => true
  | _ => false

/-- The call in the queue is the same and has not moved its item. -/
def Stays (a b : List Place) : Prop :=
  a = b ∨ ∃ x y l, a = x :: l ∧ b = y :: l ∧ placeSide x = placeSide y ∧ moved x = false ∧
    moved y = false

theorem Stays.head {x y : Place} {l : List Place} (hside : placeSide x = placeSide y)
    (hx : moved x = false) (hy : moved y = false) : Stays (x :: l) (y :: l) :=
  .inr ⟨x, y, l, rfl, rfl, hside, hx, hy⟩

/-- What a step does to the frames of the task. -/
def Goes (rest : List Place) : Place → List Place → Prop
  | .toMove k, frames => frames = .toWake k :: rest
  | .toWake _, frames => frames = rest
  | place, frames => Stays (place :: rest) frames

section

variable {s t : IoQueueTasks Tid} {p : Tid} {rest : List Place}

/-- `SemaphoreUp` lets one task go on. -/
theorem semaphore_up_stays (s : IoQueueTasks Tid) (q : Tid) :
    Stays (s.frames q) (s.semaphoreUp.frames q) ∧ s.semaphoreUp.size = s.size ∧
      s.semaphoreUp.capacity = s.capacity := by
  unfold IoQueueTasks.semaphoreUp
  split
  · exact ⟨.inl rfl, rfl, rfl⟩
  · next r waitList _ =>
      split
      · next k l hframes =>
          refine ⟨?_, rfl, rfl⟩
          show Stays (s.frames q) ((s.setFrames r (.granted k :: l)).frames q)
          rw [set_frames_frames]
          split
          · next heq =>
              rw [heq, hframes]
              exact .head rfl rfl rfl
          · exact .inl rfl
      · exact ⟨.inl rfl, rfl, rfl⟩

/-- `IoQueueWakeUp` lets one task go on, and no task that is about to wake. -/
theorem io_queue_wake_up_stays {k : Side} (h : s.ioQueueWakeUp k = some t) (q : Tid) :
    Stays (s.frames q) (t.frames q) ∧ t.size = s.size ∧ t.capacity = s.capacity := by
  unfold IoQueueTasks.ioQueueWakeUp at h
  split at h
  · cases h
    exact ⟨.inl rfl, rfl, rfl⟩
  · next r _ =>
      split at h
      · next j l hframes =>
          cases h
          refine ⟨?_, rfl, rfl⟩
          show Stays (s.frames q) ((s.setFrames r (.toUnlock j :: l)).frames q)
          rw [set_frames_frames]
          split
          · next heq =>
              rw [heq, hframes]
              exact .head rfl rfl rfl
          · exact .inl rfl
      · cases h

theorem Stays.trans {a b c : List Place} (hab : Stays a b) (hbc : Stays b c) : Stays a c := by
  rcases hab with rfl | ⟨x, y, l, rfl, rfl, hside, hx, hy⟩
  · exact hbc
  · rcases hbc with rfl | ⟨y', z, l', heq, rfl, hside', -, hz⟩
    · exact .head hside hx hy
    · cases heq
      exact .head (hside.trans hside') hx hz

/-- The frames of all tasks after one that sets those of the task. -/
theorem set_frames_stays {place next : Place} {u : IoQueueTasks Tid}
    (hframes : s.frames p = place :: rest) (hu : ∀ q, Stays (u.frames q) (t.frames q))
    (hset : ∀ q, u.frames q = (s.setFrames p (next :: rest)).frames q)
    (hside : placeSide place = placeSide next) (hplace : moved place = false)
    (hnext : moved next = false) : ∀ q, Stays (s.frames q) (t.frames q) := by
  intro q
  refine .trans ?_ (hu q)
  rw [hset, set_frames_frames]
  split
  · next heq =>
      rw [heq, hframes]
      exact .head hside hplace hnext
  · exact .inl rfl

/-- A step that moves no item lets each task stay in its call, but for one that has moved its item
before. -/
theorem frame_step_stays {place : Place} (hframes : s.frames p = place :: rest)
    (h : s.frameStep p rest place = some t) :
    Goes rest place (t.frames p) ∧ (∀ q, q ≠ p → Stays (s.frames q) (t.frames q)) ∧
      t.capacity = s.capacity := by
  have hall : (∀ k, place ≠ .toMove k ∧ place ≠ .toWake k) →
      (∀ q, Stays (s.frames q) (t.frames q)) → t.capacity = s.capacity →
      Goes rest place (t.frames p) ∧ (∀ q, q ≠ p → Stays (s.frames q) (t.frames q)) ∧
        t.capacity = s.capacity := by
    intro hplace hstays hcapacity
    refine ⟨?_, fun q _ => hstays q, hcapacity⟩
    have hself := hstays p
    rw [hframes] at hself
    cases place with
    | toMove k => exact absurd rfl (hplace k).1
    | toWake k => exact absurd rfl (hplace k).2
    | _ => exact hself
  cases place with
  | test k =>
      cases h
      refine hall (fun _ => ⟨by simp, by simp⟩)
        (set_frames_stays hframes (fun _ => .inl rfl) (fun _ => rfl) ?_ rfl ?_) rfl
      · split <;> rfl
      · split <;> rfl
  | toLock k =>
      simp only [IoQueueTasks.frameStep] at h
      split at h
      · cases h
        exact hall (fun _ => ⟨by simp, by simp⟩)
          (set_frames_stays hframes (fun _ => .inl rfl) (fun _ => rfl) rfl rfl rfl) rfl
      · split at h
        · cases h
          exact hall (fun _ => ⟨by simp, by simp⟩)
            (set_frames_stays hframes (fun _ => .inl rfl) (fun _ => rfl) rfl rfl rfl) rfl
        · cases h
          exact hall (fun _ => ⟨by simp, by simp⟩)
            (set_frames_stays hframes (fun _ => .inl rfl) (fun _ => rfl) rfl rfl rfl) rfl
  | onLock k => cases h
  | granted k =>
      simp only [IoQueueTasks.frameStep] at h
      split at h
      · cases h
        exact hall (fun _ => ⟨by simp, by simp⟩)
          (set_frames_stays hframes (fun _ => .inl rfl) (fun _ => rfl) rfl rfl rfl) rfl
      · cases h
  | toWait k =>
      simp only [IoQueueTasks.frameStep] at h
      split at h
      · cases h
        exact hall (fun _ => ⟨by simp, by simp⟩)
          (set_frames_stays hframes (fun _ => .inl rfl) (fun _ => rfl) rfl rfl rfl) rfl
      · cases h
  | waiting k => cases h
  | toUnlock k =>
      simp only [IoQueueTasks.frameStep] at h
      split at h
      · split at h
        · cases h
          exact hall (fun _ => ⟨by simp, by simp⟩)
            (set_frames_stays hframes (fun _ => .inl rfl) (fun _ => rfl) rfl rfl rfl) rfl
        · split at h
          · cases h
            exact hall (fun _ => ⟨by simp, by simp⟩)
              (set_frames_stays hframes (fun q => (semaphore_up_stays _ q).1) (fun _ => rfl)
                rfl rfl rfl) (semaphore_up_stays _ p).2.2
          · cases h
      · cases h
  | toMove k =>
      cases h
      have hframe : ∀ q, ((s.setFrames p (.toWake k :: rest)).move k).frames q =
          if q = p then .toWake k :: rest else s.frames q := by
        intro q
        rw [← set_frames_frames]
        cases k <;> rfl
      refine ⟨?_, ?_, by cases k <;> rfl⟩
      · rw [hframe, if_pos rfl]
        rfl
      · intro q hne
        rw [hframe, if_neg hne]
        exact .inl rfl
  | toWake k =>
      obtain ⟨u, hu, rfl⟩ := Option.map_eq_some_iff.mp h
      refine ⟨?_, ?_, (io_queue_wake_up_stays hu p).2.2⟩
      · rw [set_frames_frames, if_pos rfl]
        rfl
      · intro q hne
        rw [set_frames_frames, if_neg hne]
        exact (io_queue_wake_up_stays hu q).1

/-- Only a move changes the size. -/
theorem frame_step_size {place : Place} (h : s.frameStep p rest place = some t) :
    t.size = match place with
      | .toMove k => (s.move k).size
      | _ => s.size := by
  cases place with
  | test k =>
      cases h
      rfl
  | toLock k =>
      simp only [IoQueueTasks.frameStep] at h
      split at h
      · cases h
        rfl
      · split at h
        · cases h
          rfl
        · cases h
          rfl
  | onLock k => cases h
  | granted k =>
      simp only [IoQueueTasks.frameStep] at h
      split at h
      · cases h
        rfl
      · cases h
  | toWait k =>
      simp only [IoQueueTasks.frameStep] at h
      split at h
      · cases h
        rfl
      · cases h
  | waiting k => cases h
  | toUnlock k =>
      simp only [IoQueueTasks.frameStep] at h
      split at h
      · split at h
        · cases h
          rfl
        · split at h
          · cases h
            exact (semaphore_up_stays _ p).2.1
          · cases h
      · cases h
  | toMove k =>
      cases h
      cases k <;> rfl
  | toWake k =>
      obtain ⟨u, hu, rfl⟩ := Option.map_eq_some_iff.mp h
      exact (io_queue_wake_up_stays hu p).2.1

end

/-! ## The invariant -/

/-- A task in the queue is there for its call, which needs the item until it has moved. -/
def Fits (frames : List Place) (call : Option Call) : Prop :=
  frames = [] ∨ ∃ place c, frames = [place] ∧ call = some c ∧ placeSide place = c.side ∧
    (moved place = false → 0 < c.need)

theorem Fits.stays {a b : List Place} {call : Option Call} (h : Fits a call) (hstays : Stays a b) :
    Fits b call := by
  rcases hstays with rfl | ⟨x, y, l, rfl, rfl, hside, hx, -⟩
  · exact h
  · rcases h with hnil | ⟨place, c, hframes, hcall, hplace, hneed⟩
    · cases hnil
    · cases hframes
      exact .inr ⟨y, c, rfl, hcall, hside.symm.trans hplace, fun _ => hneed hx⟩

variable [Fintype Tid]

/-- The reference counts agree with the ends that are open. -/
structure EndInv (s : PipeTasks Tid) : Prop where
  file : s.kind = .pipe → ∀ k, openCount (s.opened k) ≠ 0 →
    s.fileReference k = openCount (s.opened k) ∧ s.reference k = 1
  zero : s.kind = .pipe → ∀ k, openCount (s.opened k) = 0 → s.reference k = 0
  fifo : s.kind = .fifo → ∀ k, s.reference k = openCount (s.opened k)
  slots : (s.tasks .get).length = (s.tasks .put).length
  table : s.kind = .fifo → ∀ k p, (s.tasks k).count (some p) = (s.opened k p).toNat
  freed : s.freed = true → ∀ k, openCount (s.opened k) = 0

/-- The bytes in the queue. -/
structure DataInv (s : PipeTasks Tid) : Prop where
  data : ∃ pending, IoQueueInv pipeSize 1 s.data pending ∧ s.data.puts = s.data.gets ++ pending
  size : s.io.size = s.data.queue.size
  capacity : s.io.capacity = pipeSize

/-- The invariant of a pipe and its tasks. -/
structure PipeInv (s : PipeTasks Tid) : Prop where
  fits : ∀ p, Fits (s.io.frames p) (s.calls p)
  own : ∀ p call, s.calls p = some call → s.opened call.side p = true
  rest : ∀ p count, s.calls p = some (.readRest count) → s.Closed .put
  ends : EndInv s
  data : DataInv s
  promise : ∀ k, s.Closed k.other → s.needed k ≤ s.room k
  ended : s.ended = true → s.Closed .put ∧ s.data.queue.size = 0

omit [DecidableEq Tid] in
theorem open_count_eq_zero {opened : Tid → Bool} : openCount opened = 0 ↔ ∀ p, opened p = false := by
  rw [openCount, Tally.tally_eq_zero]
  refine forall_congr' ?_
  intro p
  cases opened p <;> simp

/-- An end that leaves the table of a task is one end less. -/
theorem open_count_drop {opened : Tid → Bool} {p : Tid} (hp : opened p = true) :
    openCount (Function.update opened p false) + 1 = openCount opened := by
  have hsum := Tally.tally_comp_update Bool.toNat opened p false
  rw [hp] at hsum
  exact hsum

section

variable {s t : PipeTasks Tid} {p : Tid}

/-- A count is positive exactly when the end is open. -/
theorem EndInv.reference_pos (h : EndInv s) (k : Side) : 0 < s.reference k ↔ ¬ s.Closed k := by
  have hclosed : s.Closed k ↔ openCount (s.opened k) = 0 := open_count_eq_zero.symm
  rw [hclosed]
  cases hkind : s.kind with
  | pipe =>
      by_cases hzero : openCount (s.opened k) = 0
      · rw [h.zero hkind k hzero]
        simp [hzero]
      · rw [(h.file hkind k hzero).2]
        simp [hzero]
  | fifo =>
      rw [h.fifo hkind k]
      omega

omit [DecidableEq Tid] [Fintype Tid] in
theorem DataInv.size_le (h : DataInv s) : s.data.queue.size ≤ pipeSize := by
  obtain ⟨pending, hinv, -⟩ := h.data
  have hle := hinv.holds.le
  rw [Nat.div_one] at hle
  rw [hinv.size_eq]
  exact hle

/-- What a task needs, when its call changes. -/
theorem needed_set_call (s : PipeTasks Tid) (p : Tid) (call : Option Call) (k : Side) :
    (s.setCall p call).needed k + need k (s.calls p) = s.needed k + need k call :=
  Tally.tally_comp_update (need k) s.calls p call

omit [DecidableEq Tid] in
theorem need_le_needed (s : PipeTasks Tid) (p : Tid) (k : Side) : need k (s.calls p) ≤ s.needed k :=
  Tally.le_tally (fun p => need k (s.calls p)) p

/-! ## The steps of a call -/

/-- The task, outside of the queue, goes on to another point of its call, or returns. -/
theorem PipeInv.set_call (h : PipeInv s) (hframes : s.io.frames p = []) {call : Option Call}
    (hown : ∀ c, call = some c → s.opened c.side p = true)
    (hrest : ∀ count, call = some (.readRest count) → s.Closed .put)
    (hneed : ∀ k, s.Closed k.other → need k call ≠ 0 → s.needed k + need k call ≤ s.room k) :
    PipeInv (s.setCall p call) := by
  have hcalls : ∀ q, (s.setCall p call).calls q = if q = p then call else s.calls q :=
    fun q => Function.update_apply ..
  refine ⟨?_, ?_, ?_, ?_, ?_, ?_, h.ended⟩
  · intro q
    rw [hcalls]
    split
    · next heq => exact .inl (heq ▸ hframes)
    · exact h.fits q
  · intro q c hc
    rw [hcalls] at hc
    split at hc
    · next heq => exact heq ▸ hown c hc
    · exact h.own q c hc
  · intro q count hc
    rw [hcalls] at hc
    split at hc
    · exact hrest count hc
    · exact h.rest q count hc
  · exact ⟨h.ends.file, h.ends.zero, h.ends.fifo, h.ends.slots, h.ends.table, h.ends.freed⟩
  · exact ⟨h.data.data, h.data.size, h.data.capacity⟩
  · intro k hclosed
    have hpromise := h.promise k hclosed
    have hsum := needed_set_call s p call k
    show _ ≤ s.room k
    by_cases hzero : need k call = 0
    · omega
    · have := hneed k hclosed hzero
      omega

/-- The task enters the queue for an item that it needs. -/
theorem PipeInv.enter (h : PipeInv s) {c : Call} (hcall : s.calls p = some c)
    (hneed : 0 < c.need) : PipeInv (s.enter p c.side) := by
  refine ⟨?_, h.own, h.rest, ?_, ?_, h.promise, h.ended⟩
  · intro q
    show Fits ((s.io.setFrames p [.test c.side]).frames q) (s.calls q)
    rw [set_frames_frames]
    split
    · next heq => exact .inr ⟨_, c, rfl, heq ▸ hcall, rfl, fun _ => hneed⟩
    · exact h.fits q
  · exact ⟨h.ends.file, h.ends.zero, h.ends.fifo, h.ends.slots, h.ends.table, h.ends.freed⟩
  · exact ⟨h.data.data, h.data.size, h.data.capacity⟩

omit [DecidableEq Tid] [Fintype Tid] in
/-- A read that returns no byte has found the queue empty. -/
theorem rest_eq_zero {kind : PipeKind} {count : UInt32} {size : Nat}
    (hzero : kind.rest count size = 0) (hcount : count ≠ 0) : size = 0 := by
  cases kind with
  | pipe => exact hzero
  | fifo =>
      have hne : count.toNat ≠ 0 := fun h => hcount (UInt32.toNat_inj.mp h)
      have hmin : min count.toNat size = 0 := hzero
      omega

/-- A call goes on, or into the queue. -/
theorem PipeInv.call_step (h : PipeInv s) (hframes : s.io.frames p = []) {c : Call}
    (hcall : s.calls p = some c)
    (hguard : s.Closed .put → 0 < s.taking c → s.needed .get + s.taking c ≤ s.room .get) :
    PipeInv (s.callStep p c) := by
  have hown := h.own p c hcall
  have hnone : PipeInv (s.setCall p none) :=
    h.set_call hframes nofun nofun fun k _ hne => absurd rfl hne
  cases c with
  | readTest count =>
      simp only [PipeTasks.callStep]
      split
      · next hpos =>
          refine h.set_call hframes ?_ nofun ?_
          · intro d hd
            cases hd
            exact hown
          · intro k hclosed hne
            cases k with
            | get => exact absurd hclosed ((h.ends.reference_pos .put).mp hpos)
            | put => exact absurd rfl hne
      · next hpos =>
          have hclosed : s.Closed .put := by
            by_contra hnot
            exact hpos ((h.ends.reference_pos .put).mpr hnot)
          refine h.set_call hframes ?_ (fun _ _ => hclosed) ?_
          · intro d hd
            cases hd
            exact hown
          · intro k _ hne
            cases k <;> exact absurd rfl hne
  | readFirst count => exact h.enter hcall Nat.zero_lt_one
  | readLength count =>
      refine h.set_call hframes ?_ nofun ?_
      · intro d hd
        cases hd
        exact hown
      · intro k hclosed hne
        cases k with
        | get => exact hguard hclosed (Nat.pos_of_ne_zero hne)
        | put => exact absurd rfl hne
  | readRest count =>
      have hset : PipeInv (s.setCall p (some (.readLoop (s.kind.rest count s.data.queue.size)))) := by
        refine h.set_call hframes ?_ nofun ?_
        · intro d hd
          cases hd
          exact hown
        · intro k hclosed hne
          cases k with
          | get => exact hguard hclosed (Nat.pos_of_ne_zero hne)
          | put => exact absurd rfl hne
      refine ⟨hset.fits, hset.own, hset.rest, ?_, ?_, hset.promise, ?_⟩
      · exact ⟨h.ends.file, h.ends.zero, h.ends.fifo, h.ends.slots, h.ends.table, h.ends.freed⟩
      · exact ⟨h.data.data, h.data.size, h.data.capacity⟩
      · intro hended
        simp only [PipeTasks.callStep, Bool.or_eq_true, Bool.and_eq_true, decide_eq_true_eq] at hended
        rcases hended with hended | ⟨hzero, hcount⟩
        · exact h.ended hended
        · exact ⟨h.rest p count hcall, rest_eq_zero hzero hcount⟩
  | readLoop len =>
      cases len with
      | zero => exact hnone
      | succ len => exact h.enter hcall (Nat.succ_pos len)
  | writeTest bytes =>
      simp only [PipeTasks.callStep]
      split
      · next hpos =>
          refine h.set_call hframes ?_ nofun ?_
          · intro d hd
            cases hd
            exact hown
          · intro k hclosed hne
            cases k with
            | get => exact absurd rfl hne
            | put => exact absurd hclosed ((h.ends.reference_pos .get).mp hpos)
      · exact hnone
  | writeLoop bytes =>
      cases bytes with
      | nil => exact hnone
      | cons byte bytes => exact h.enter hcall (Nat.succ_pos bytes.length)

/-! ## The steps in the queue -/

/-- A task goes on in the queue, without an item that moves. -/
theorem PipeInv.frame (h : PipeInv s) {place : Place} {rest : List Place} {io : IoQueueTasks Tid}
    (hframes : s.io.frames p = place :: rest) (hplace : ∀ k, place ≠ .toMove k)
    (hstep : s.io.frameStep p rest place = some io) : PipeInv { s with io } := by
  obtain ⟨hgoes, hstays, hcapacity⟩ := frame_step_stays hframes hstep
  have hsize : io.size = s.io.size := by
    rw [frame_step_size hstep]
    cases place with
    | toMove k => exact absurd rfl (hplace k)
    | _ => rfl
  refine ⟨?_, h.own, h.rest, ?_, ?_, h.promise, h.ended⟩
  · intro q
    by_cases heq : q = p
    · subst heq
      have hfits := h.fits q
      rw [hframes] at hfits
      cases place with
      | toMove k => exact absurd rfl (hplace k)
      | toWake k =>
          rcases hfits with hnil | ⟨place, c, hone, -, -, -⟩
          · cases hnil
          · cases hone
            exact .inl hgoes
      | _ => exact hfits.stays hgoes
    · exact (h.fits q).stays (hstays q heq)
  · exact ⟨h.ends.file, h.ends.zero, h.ends.fifo, h.ends.slots, h.ends.table, h.ends.freed⟩
  · exact ⟨h.data.data, hsize.trans h.data.size, hcapacity.trans h.data.capacity⟩

/-- The frames after the item of a call has moved. -/
theorem PipeInv.moved_fits (h : PipeInv s) {k : Side} {c d : Call} {io : IoQueueTasks Tid}
    (hframes : s.io.frames p = [.toMove k]) (hcall : s.calls p = some c) (hside : d.side = c.side)
    (hstep : s.io.frameStep p [] (.toMove k) = some io) (q : Tid) :
    Fits (io.frames q) (Function.update s.calls p (some d) q) := by
  obtain ⟨hgoes, hstays, -⟩ := frame_step_stays hframes hstep
  by_cases heq : q = p
  · subst heq
    rw [Function.update_self]
    rcases h.fits q with hnil | ⟨place, c', hone, hcall', hplace, -⟩
    · rw [hnil] at hframes
      cases hframes
    · rw [hframes] at hone
      rw [hcall] at hcall'
      cases hone
      cases hcall'
      exact .inr ⟨.toWake k, d, hgoes, rfl, hplace.trans hside.symm, nofun⟩
  · rw [Function.update_of_ne heq]
    exact (h.fits q).stays (hstays q heq)

omit [DecidableEq Tid] [Fintype Tid] in
/-- The queue after `getByte`. -/
theorem DataInv.get_byte (h : DataInv s) (hsize : 0 < s.data.queue.size) :
    (∃ pending, IoQueueInv pipeSize 1 s.getByte.data pending ∧
      s.getByte.data.puts = s.getByte.data.gets ++ pending) ∧
      s.getByte.data.queue.size + 1 = s.data.queue.size := by
  obtain ⟨pending, hinv, hputs⟩ := h.data
  cases pending with
  | nil =>
      rw [hinv.size_eq] at hsize
      cases hsize
  | cons item pending =>
      obtain ⟨hnext, hvalue⟩ := hinv.get (by decide) (one_dvd _) (by decide) 0
      rw [Nat.zero_div, Nat.mul_zero, Nat.add_zero] at hvalue
      refine ⟨⟨pending, hnext, ?_⟩, ?_⟩
      · show s.data.puts = s.data.gets ++ [(s.data.queue.ioQueueGet 0).2] ++ pending
        rw [hvalue, hputs, List.append_assoc]
        rfl
      · show (s.data.queue.ioQueueGet 0).1.size + 1 = _
        rw [hnext.size_eq, hinv.size_eq]
        rfl

omit [DecidableEq Tid] [Fintype Tid] in
/-- The queue after `putByte`. -/
theorem DataInv.put_byte (h : DataInv s) (hsize : s.data.queue.size < pipeSize) (byte : UInt8) :
    (∃ pending, IoQueueInv pipeSize 1 (s.putByte byte).data pending ∧
      (s.putByte byte).data.puts = (s.putByte byte).data.gets ++ pending) ∧
      (s.putByte byte).data.queue.size = s.data.queue.size + 1 := by
  obtain ⟨pending, hinv, hputs⟩ := h.data
  have hroom : s.data.queue.ioQueueFull = false := by
    rw [IoQueue.ioQueueFull, hinv.buflen_eq, hinv.factor_eq, Nat.div_one]
    simp only [decide_eq_false_iff_not]
    omega
  have hnext := hinv.put (by decide) (one_dvd _) (by decide) hroom byte.toNat
  have hbyte : lowBytes 1 byte.toNat = byte.toNat :=
    Nat.mod_eq_of_lt (Nat.lt_of_lt_of_eq byte.toNat_lt rfl)
  refine ⟨⟨_, hnext, ?_⟩, ?_⟩
  · show s.data.puts ++ [byte.toNat] = s.data.gets ++ (pending ++ [lowBytes 1 byte.toNat])
    rw [hbyte, hputs, List.append_assoc]
  · show (s.data.queue.ioQueuePut byte.toNat).size = _
    rw [hnext.size_eq, hinv.size_eq, List.length_append]
    rfl

/-- An item that a call needs has moved. -/
theorem PipeInv.moved_item (h : PipeInv s) {k : Side} {c d : Call} {io : IoQueueTasks Tid}
    {data : IoQueueTrace} (hframes : s.io.frames p = [.toMove k]) (hcall : s.calls p = some c)
    (hstep : s.io.frameStep p [] (.toMove k) = some io) (hside : d.side = c.side)
    (hneed : c.need = d.need + 1) (hrest : ∀ count, d ≠ .readRest count)
    (hdata : DataInv { s with io, data })
    (hroom : ∀ j, s.room j ≤ ({ s with io, data } : PipeTasks Tid).room j +
      if c.side = j then 1 else 0)
    (hended : s.ended = true → s.Closed .put ∧ data.queue.size = 0) :
    PipeInv ({ s with io, data }.setCall p (some d)) := by
  have hcalls : ∀ q, ({ s with io, data }.setCall p (some d)).calls q =
      if q = p then some d else s.calls q := fun q => Function.update_apply ..
  refine ⟨h.moved_fits hframes hcall hside hstep, ?_, ?_, ?_, ?_, ?_, hended⟩
  · intro q e he
    rw [hcalls] at he
    split at he
    · next heq =>
        cases he
        show s.opened d.side q = true
        rw [heq, hside]
        exact h.own p c hcall
    · exact h.own q e he
  · intro q count he
    rw [hcalls] at he
    split at he
    · exact absurd (Option.some.inj he) (hrest count)
    · exact h.rest q count he
  · exact ⟨h.ends.file, h.ends.zero, h.ends.fifo, h.ends.slots, h.ends.table, h.ends.freed⟩
  · exact ⟨hdata.data, hdata.size, hdata.capacity⟩
  · intro j hclosed
    have hpromise := h.promise j hclosed
    have hsum : _ + need j (s.calls p) = s.needed j + need j (some d) :=
      needed_set_call { s with io, data } p (some d) j
    rw [hcall] at hsum
    simp only [need, hside] at hsum
    have hj := hroom j
    show _ ≤ ({ s with io, data } : PipeTasks Tid).room j
    split at hsum
    · next heq =>
        rw [if_pos heq] at hj
        omega
    · next hne =>
        rw [if_neg hne] at hj
        omega

/-- The byte of a read comes out of the queue, which is not empty. -/
theorem PipeInv.get_byte (h : PipeInv s) {c d : Call} {io : IoQueueTasks Tid}
    (hframes : s.io.frames p = [.toMove .get]) (hcall : s.calls p = some c)
    (hstep : s.io.frameStep p [] (.toMove .get) = some io) (hc : c.side = .get)
    (hd : d.side = .get) (hneed : c.need = d.need + 1) (hrest : ∀ count, d ≠ .readRest count)
    (hopen : s.io.Open .get) : PipeInv (({ s with io }.getByte).setCall p (some d)) := by
  have hpos : 0 < s.io.size := hopen
  have hsize := h.data.size
  obtain ⟨hdata, hless⟩ := h.data.get_byte (by omega)
  have hio : io.size = s.io.size - 1 := frame_step_size hstep
  have hcap := (frame_step_stays hframes hstep).2.2
  refine h.moved_item hframes hcall hstep (hd.trans hc.symm) hneed hrest
    ⟨hdata, ?_, hcap.trans h.data.capacity⟩ ?_ ?_
  · show io.size = (s.getByte.data.queue.size : Int)
    omega
  · intro j
    rw [hc]
    cases j with
    | get =>
        show s.data.queue.size ≤ s.getByte.data.queue.size + 1
        omega
    | put =>
        show pipeSize - s.data.queue.size ≤ pipeSize - s.getByte.data.queue.size + 0
        omega
  · intro hended
    have := (h.ended hended).2
    omega

/-- The byte of a write goes into the queue, which is not full. -/
theorem PipeInv.put_byte (h : PipeInv s) {c d : Call} {io : IoQueueTasks Tid} (byte : UInt8)
    (hframes : s.io.frames p = [.toMove .put]) (hcall : s.calls p = some c)
    (hstep : s.io.frameStep p [] (.toMove .put) = some io) (hc : c.side = .put)
    (hd : d.side = .put) (hneed : c.need = d.need + 1) (hrest : ∀ count, d ≠ .readRest count)
    (hopen : s.io.Open .put) : PipeInv (({ s with io }.putByte byte).setCall p (some d)) := by
  have hlt : s.io.size < s.io.capacity := hopen
  have hsize := h.data.size
  have hcapacity := h.data.capacity
  obtain ⟨hdata, hmore⟩ := h.data.put_byte (by omega) byte
  have hio : io.size = s.io.size + 1 := frame_step_size hstep
  have hcap := (frame_step_stays hframes hstep).2.2
  refine h.moved_item hframes hcall hstep (hd.trans hc.symm) hneed hrest
    ⟨hdata, ?_, hcap.trans h.data.capacity⟩ ?_ ?_
  · show io.size = ((s.putByte byte).data.queue.size : Int)
    omega
  · intro j
    rw [hc]
    cases j with
    | get =>
        show s.data.queue.size ≤ (s.putByte byte).data.queue.size + 0
        omega
    | put =>
        show pipeSize - s.data.queue.size ≤ pipeSize - (s.putByte byte).data.queue.size + 1
        omega
  · intro hended
    have hclosed := (h.ended hended).1 p
    have hown := h.own p c hcall
    rw [hc, hclosed] at hown
    cases hown

/-- The item of a call moves. -/
theorem PipeInv.move (h : PipeInv s) {k : Side} {rest : List Place} {c : Call}
    {io : IoQueueTasks Tid} (hframes : s.io.frames p = .toMove k :: rest)
    (hcall : s.calls p = some c) (hstep : s.io.frameStep p rest (.toMove k) = some io)
    (hopen : s.io.Open k) : PipeInv ({ s with io }.move p c) := by
  obtain ⟨rfl, rfl, hpos⟩ : rest = [] ∧ k = c.side ∧ 0 < c.need := by
    rcases h.fits p with hnil | ⟨place, c', hone, hcall', hplace, hneed⟩
    · rw [hnil] at hframes
      cases hframes
    · rw [hframes] at hone
      rw [hcall] at hcall'
      cases hone
      cases hcall'
      exact ⟨rfl, hplace, hneed rfl⟩
  cases c with
  | readTest count => cases hpos
  | readFirst count => exact h.get_byte hframes hcall hstep rfl rfl rfl nofun hopen
  | readLength count => cases hpos
  | readRest count => cases hpos
  | readLoop len =>
      cases len with
      | zero => cases hpos
      | succ len => exact h.get_byte hframes hcall hstep rfl rfl rfl nofun hopen
  | writeTest bytes => cases hpos
  | writeLoop bytes =>
      cases bytes with
      | nil => cases hpos
      | cons byte bytes => exact h.put_byte byte hframes hcall hstep rfl rfl rfl nofun hopen

/-! ## Closing an end -/

omit [Fintype Tid] in
/-- Erasing a task from its table leaves the others there. -/
theorem count_replace (l : List (Option Tid)) (p q : Tid) :
    (l.replace (some p) none).count (some q) =
      if q = p then l.count (some p) - 1 else l.count (some q) := by
  induction l with
  | nil => simp
  | cons a l ih =>
      rw [List.replace_cons]
      by_cases hap : a = some p
      · subst hap
        by_cases hqp : q = p
        · subst hqp
          simp
        · have hne : p ≠ q := fun heq => hqp heq.symm
          simp [hqp, hne]
      · have hbeq : (some p == a) = false := beq_eq_false_iff_ne.mpr (Ne.symm hap)
        rw [hbeq]
        simp only [List.count_cons, ih]
        by_cases hqp : q = p
        · subst hqp
          simp [hap]
        · simp [hqp]

omit [Fintype Tid] in
/-- A reader that does not write is found in the table of the readers. -/
theorem pipe_in_table_get {reads writes : List (Option Tid)} (hlen : reads.length = writes.length)
    (hin : some p ∈ reads) (hout : some p ∉ writes) : pipeInTable p reads writes = some .get := by
  induction reads generalizing writes with
  | nil => cases hin
  | cons r reads ih =>
      cases writes with
      | nil => cases hlen
      | cons w writes =>
          obtain ⟨hw, hwrites⟩ := not_or.mp (mt List.mem_cons.mpr hout)
          rw [pipeInTable]
          by_cases hr : r = some p
          · rw [if_pos hr]
          · rw [if_neg hr, if_neg (Ne.symm hw)]
            exact ih (Nat.succ.inj hlen) ((List.mem_cons.mp hin).resolve_left (Ne.symm hr)) hwrites

omit [Fintype Tid] in
/-- A writer that does not read is found in the table of the writers. -/
theorem pipe_in_table_put {reads writes : List (Option Tid)} (hlen : reads.length = writes.length)
    (hout : some p ∉ reads) (hin : some p ∈ writes) : pipeInTable p reads writes = some .put := by
  induction reads generalizing writes with
  | nil =>
      rw [List.eq_nil_of_length_eq_zero hlen.symm] at hin
      cases hin
  | cons r reads ih =>
      cases writes with
      | nil => cases hlen
      | cons w writes =>
          obtain ⟨hr, hreads⟩ := not_or.mp (mt List.mem_cons.mpr hout)
          rw [pipeInTable, if_neg (Ne.symm hr)]
          by_cases hw : w = some p
          · rw [if_pos hw]
          · rw [if_neg hw]
            exact ih (Nat.succ.inj hlen) hreads ((List.mem_cons.mp hin).resolve_left (Ne.symm hw))

omit [Fintype Tid] in
/-- A task that is in one table only is found in that one. -/
theorem pipe_in_table_eq {tables : Side → List (Option Tid)} {k : Side}
    (hlen : (tables .get).length = (tables .put).length) (hin : some p ∈ tables k)
    (hout : some p ∉ tables k.other) : pipeInTable p (tables .get) (tables .put) = some k := by
  cases k with
  | get => exact pipe_in_table_get hlen hin hout
  | put => exact pipe_in_table_put hlen hout hin

/-- One task drops an end of a pipe. With the last one goes the reference, and with the last
reference the pipe. -/
theorem EndInv.close_pipe (h : EndInv s) {k : Side} (hpipe : s.kind = .pipe)
    (hp : s.opened k p = true) (hkind : t.kind = s.kind) (htasks : t.tasks = s.tasks)
    (hopened : t.opened = Function.update s.opened k (Function.update (s.opened k) p false))
    (hother : ∀ j, j ≠ k → t.fileReference j = s.fileReference j ∧ t.reference j = s.reference j)
    (hmore : openCount (s.opened k) ≠ 1 →
      t.fileReference k = s.fileReference k - 1 ∧ t.reference k = s.reference k)
    (hlast : openCount (s.opened k) = 1 → t.reference k = 0)
    (hfreed : t.freed = true → s.freed = true ∨ ∀ j, t.reference j = 0) : EndInv t := by
  have hcount := open_count_drop hp
  have hself : t.opened k = Function.update (s.opened k) p false := by
    rw [hopened, Function.update_self]
  have hsame : ∀ j, j ≠ k → t.opened j = s.opened j := by
    intro j hne
    rw [hopened, Function.update_of_ne hne]
  have hfile : ∀ j, openCount (t.opened j) ≠ 0 →
      t.fileReference j = openCount (t.opened j) ∧ t.reference j = 1 := by
    intro j hne
    by_cases hj : j = k
    · subst hj
      rw [hself] at hne ⊢
      obtain ⟨hfile, href⟩ := h.file hpipe j (by omega)
      obtain ⟨hfile', href'⟩ := hmore (by omega)
      exact ⟨by omega, href'.trans href⟩
    · rw [hsame j hj] at hne ⊢
      rw [(hother j hj).1, (hother j hj).2]
      exact h.file hpipe j hne
  refine ⟨fun _ => hfile, ?_, ?_, ?_, ?_, ?_⟩
  · intro _ j hzero
    by_cases hj : j = k
    · subst hj
      rw [hself] at hzero
      exact hlast (by omega)
    · rw [hsame j hj] at hzero
      rw [(hother j hj).2]
      exact h.zero hpipe j hzero
  · intro hfifo
    rw [hkind, hpipe] at hfifo
    cases hfifo
  · rw [htasks]
    exact h.slots
  · intro hfifo
    rw [hkind, hpipe] at hfifo
    cases hfifo
  · intro hfree j
    rcases hfreed hfree with hbefore | hzero
    · have := h.freed hbefore k
      omega
    · by_contra hne
      have hone := (hfile j hne).2
      rw [hzero j] at hone
      cases hone

omit [DecidableEq Tid] [Fintype Tid] in
/-- What `BOFS_PipeClose` does. -/
theorem pipe_close_eq (s : PipeTasks Tid) (k : Side) :
    s.pipeClose k = { s with
      fileReference := Function.update s.fileReference k (s.fileReference k - 1)
      reference := if s.fileReference k ≤ 1 then Function.update s.reference k 0 else s.reference
      freed := s.freed || (decide (s.fileReference k ≤ 1) &&
        decide (∀ j, Function.update s.reference k 0 j = 0)) } := by
  have hle : Function.update s.fileReference k (s.fileReference k - 1) k ≤ 0 ↔
      s.fileReference k ≤ 1 := by
    rw [Function.update_self]
    omega
  have hboth : (∀ j, Function.update s.reference k 0 j = 0) ↔
      Function.update s.reference k 0 .get = 0 ∧ Function.update s.reference k 0 .put = 0 :=
    ⟨fun h => ⟨h _, h _⟩, fun h j => by cases j; exact h.2; exact h.1⟩
  unfold PipeTasks.pipeClose
  simp only [hle, hboth]
  by_cases hlast : s.fileReference k ≤ 1
  · by_cases hfree : Function.update s.reference k 0 .get = 0 ∧ Function.update s.reference k 0 .put = 0
    · simp [hlast, hfree]
    · simp [hlast, hfree]
  · simp [hlast]

/-- One task drops an end of a FIFO that is its only one. -/
theorem EndInv.close_fifo (h : EndInv s) {k : Side} (hfifo : s.kind = .fifo)
    (hp : s.opened k p = true) (hother : s.opened k.other p = false) :
    EndInv ((s.fifoClose p).dropEnd p k) := by
  have hcount := open_count_drop hp
  have hone : (s.tasks k).count (some p) = 1 := by
    rw [h.table hfifo, hp]
    rfl
  have hzero : (s.tasks k.other).count (some p) = 0 := by
    rw [h.table hfifo, hother]
    rfl
  have hk : pipeInTable p (s.tasks .get) (s.tasks .put) = some k :=
    pipe_in_table_eq h.slots (List.count_pos_iff.mp (by omega)) (List.count_eq_zero.mp hzero)
  rw [PipeTasks.fifoClose, hk]
  refine ⟨?_, ?_, ?_, ?_, ?_, ?_⟩
  · intro hpipe
    rw [show s.kind = .pipe from hpipe] at hfifo
    cases hfifo
  · intro hpipe
    rw [show s.kind = .pipe from hpipe] at hfifo
    cases hfifo
  · intro _ j
    have href := h.fifo hfifo j
    show Function.update s.reference k (s.reference k - 1) j = (openCount
      (Function.update s.opened k (Function.update (s.opened k) p false) j) : Int)
    by_cases hj : j = k
    · subst hj
      rw [Function.update_self, Function.update_self]
      omega
    · rw [Function.update_of_ne hj, Function.update_of_ne hj]
      exact href
  · show (Function.update s.tasks k ((s.tasks k).replace (some p) none) .get).length =
      (Function.update s.tasks k ((s.tasks k).replace (some p) none) .put).length
    have hlen : ∀ j, (Function.update s.tasks k ((s.tasks k).replace (some p) none) j).length =
        (s.tasks j).length := by
      intro j
      by_cases hj : j = k
      · subst hj
        rw [Function.update_self, List.length_replace]
      · rw [Function.update_of_ne hj]
    rw [hlen, hlen]
    exact h.slots
  · intro _ j q
    have htable := h.table hfifo j q
    show (Function.update s.tasks k ((s.tasks k).replace (some p) none) j).count (some q) =
      (Function.update s.opened k (Function.update (s.opened k) p false) j q).toNat
    by_cases hj : j = k
    · subst hj
      rw [Function.update_self, Function.update_self, count_replace, Function.update_apply]
      by_cases hq : q = p
      · rw [if_pos hq, if_pos hq, hone]
        rfl
      · rw [if_neg hq, if_neg hq]
        exact htable
    · rw [Function.update_of_ne hj, Function.update_of_ne hj]
      exact htable
  · intro hfreed
    have := h.freed hfreed k
    omega

/-- `BOFS_Close` keeps the counts. -/
theorem EndInv.close (h : EndInv s) {k : Side} (hp : s.opened k p = true)
    (hguard : s.kind = .fifo → s.opened k.other p = false) : EndInv (s.close p k) := by
  rw [PipeTasks.close]
  cases hkind : s.kind with
  | pipe =>
      have hcount := open_count_drop hp
      have hfile := (h.file hkind k (by omega)).1
      simp only []
      rw [pipe_close_eq]
      refine h.close_pipe hkind hp rfl rfl rfl ?_ ?_ ?_ ?_
      · intro j hne
        refine ⟨Function.update_of_ne hne .., ?_⟩
        show (if s.fileReference k ≤ 1 then Function.update s.reference k 0 else s.reference) j = _
        split
        · exact Function.update_of_ne hne ..
        · rfl
      · intro hmore
        refine ⟨Function.update_self .., ?_⟩
        show (if s.fileReference k ≤ 1 then Function.update s.reference k 0 else s.reference) k = _
        rw [if_neg (by omega)]
      · intro hlast
        show (if s.fileReference k ≤ 1 then Function.update s.reference k 0 else s.reference) k = 0
        rw [if_pos (by omega), Function.update_self]
      · intro hfreed
        simp only [PipeTasks.dropEnd, Bool.or_eq_true, Bool.and_eq_true,
          decide_eq_true_eq] at hfreed
        refine hfreed.imp_right ?_
        rintro ⟨hlast, hzero⟩ j
        show (if s.fileReference k ≤ 1 then Function.update s.reference k 0 else s.reference) j = 0
        rw [if_pos hlast]
        exact hzero j
  | fifo => exact h.close_fifo hkind hp (hguard hkind)

/-- `BOFS_ReleaseTaskFiles` keeps the counts. -/
theorem EndInv.release (h : EndInv s) {k : Side} (hp : s.opened k p = true)
    (hguard : s.kind = .fifo → s.opened k.other p = false) : EndInv (s.release p k) := by
  rw [PipeTasks.release]
  cases hkind : s.kind with
  | pipe =>
      have hcount := open_count_drop hp
      have hfile := (h.file hkind k (by omega)).1
      simp only [Function.update_self]
      by_cases hlast : s.fileReference k - 1 = 0
      · rw [if_pos hlast, pipe_close_eq]
        have hle : Function.update s.fileReference k (s.fileReference k - 1) k ≤ 1 := by
          rw [Function.update_self]
          omega
        simp only [if_pos hle]
        refine h.close_pipe hkind hp hkind.symm rfl rfl ?_ ?_ ?_ ?_
        · intro j hne
          refine ⟨?_, Function.update_of_ne hne ..⟩
          exact (Function.update_of_ne hne ..).trans (Function.update_of_ne hne ..)
        · intro hmore
          omega
        · exact fun _ => Function.update_self ..
        · intro hfreed
          simp only [PipeTasks.dropEnd, Bool.or_eq_true, Bool.and_eq_true,
            decide_eq_true_eq] at hfreed
          exact hfreed.imp_right And.right
      · rw [if_neg hlast]
        refine h.close_pipe hkind hp hkind.symm rfl rfl ?_ ?_ ?_ ?_
        · exact fun j hne => ⟨Function.update_of_ne hne .., rfl⟩
        · exact fun _ => ⟨Function.update_self .., rfl⟩
        · intro hone
          omega
        · exact fun hfreed => .inl hfreed
  | fifo => exact h.close_fifo hkind hp (hguard hkind)

/-- A task that is not inside drops an end. -/
theorem PipeInv.close_end (h : PipeInv s) {k : Side} (hcall : s.calls p = none)
    (hguard : (∀ q, q ≠ p → s.opened k q = false) → s.needed k.other ≤ s.room k.other)
    (hio : t.io = s.io) (hdata : t.data = s.data) (hcalls : t.calls = s.calls)
    (hended : t.ended = s.ended)
    (hopened : t.opened = Function.update s.opened k (Function.update (s.opened k) p false))
    (hends : EndInv t) : PipeInv t := by
  have hstays : ∀ j q, q ≠ p → t.opened j q = s.opened j q := by
    intro j q hne
    rw [hopened]
    by_cases hj : j = k
    · subst hj
      rw [Function.update_self, Function.update_of_ne hne]
    · rw [Function.update_of_ne hj]
  have hdrops : ∀ j q, s.opened j q = false → t.opened j q = false := by
    intro j q hq
    rw [hopened]
    by_cases hj : j = k
    · subst hj
      rw [Function.update_self, Function.update_apply]
      split
      · rfl
      · exact hq
    · rw [Function.update_of_ne hj]
      exact hq
  have hroom : ∀ j, t.room j = s.room j := by
    intro j
    cases j <;> simp only [PipeTasks.room, hdata]
  have hneeded : ∀ j, t.needed j = s.needed j := by
    intro j
    simp only [PipeTasks.needed, hcalls]
  refine ⟨?_, ?_, ?_, hends, ⟨?_, ?_, ?_⟩, ?_, ?_⟩
  · rw [hio, hcalls]
    exact h.fits
  · intro q c hc
    rw [hcalls] at hc
    have hne : q ≠ p := by
      rintro rfl
      rw [hcall] at hc
      cases hc
    rw [hstays _ _ hne]
    exact h.own q c hc
  · intro q count hc
    rw [hcalls] at hc
    exact fun r => hdrops _ r (h.rest q count hc r)
  · rw [hdata]
    exact h.data.data
  · rw [hio, hdata]
    exact h.data.size
  · rw [hio]
    exact h.data.capacity
  · intro j hclosed
    rw [hneeded, hroom]
    by_cases hj : j.other = k
    · subst hj
      rw [Side.other_other] at hguard
      exact hguard fun q hne => (hstays _ q hne).symm.trans (hclosed q)
    · refine h.promise j ?_
      intro q
      have hq := hclosed q
      rw [hopened, Function.update_of_ne hj] at hq
      exact hq
  · intro hend
    rw [hended] at hend
    rw [hdata]
    exact ⟨fun r => hdrops _ r ((h.ended hend).1 r), (h.ended hend).2⟩

/-- Only the ends change. -/
structure SameInside (s t : PipeTasks Tid) : Prop where
  io : t.io = s.io
  data : t.data = s.data
  calls : t.calls = s.calls
  ended : t.ended = s.ended

omit [Fintype Tid] in
theorem fifo_close_same (s : PipeTasks Tid) (p : Tid) :
    SameInside s (s.fifoClose p) ∧ (s.fifoClose p).opened = s.opened := by
  unfold PipeTasks.fifoClose
  split <;> exact ⟨⟨rfl, rfl, rfl, rfl⟩, rfl⟩

omit [Fintype Tid] in
theorem drop_end_same {u : PipeTasks Tid} (h : SameInside s u) (hopened : u.opened = s.opened)
    (p : Tid) (k : Side) : SameInside s (u.dropEnd p k) ∧
      (u.dropEnd p k).opened = Function.update s.opened k (Function.update (s.opened k) p false) := by
  refine ⟨⟨h.io, h.data, h.calls, h.ended⟩, ?_⟩
  rw [← hopened]
  rfl

omit [Fintype Tid] in
theorem close_same (s : PipeTasks Tid) (p : Tid) (k : Side) : SameInside s (s.close p k) ∧
    (s.close p k).opened = Function.update s.opened k (Function.update (s.opened k) p false) := by
  rw [PipeTasks.close]
  cases s.kind with
  | pipe =>
      simp only []
      rw [pipe_close_eq]
      exact ⟨⟨rfl, rfl, rfl, rfl⟩, rfl⟩
  | fifo => exact drop_end_same (fifo_close_same s p).1 (fifo_close_same s p).2 p k

omit [Fintype Tid] in
theorem release_same (s : PipeTasks Tid) (p : Tid) (k : Side) : SameInside s (s.release p k) ∧
    (s.release p k).opened = Function.update s.opened k (Function.update (s.opened k) p false) := by
  rw [PipeTasks.release]
  cases s.kind with
  | pipe =>
      simp only [pipe_close_eq]
      split <;> exact ⟨⟨rfl, rfl, rfl, rfl⟩, rfl⟩
  | fifo => exact drop_end_same (fifo_close_same s p).1 (fifo_close_same s p).2 p k

/-! ## Runs -/

/-- A step that meets the guard keeps the invariant. -/
theorem PipeInv.step (h : PipeInv s) {op : PipeOp Tid} (hguard : pipeGuard s op)
    (hstep : stepOf pipeStep s op t) : PipeInv t := by
  have hidle : ∀ q, s.calls q = none → s.io.frames q = [] := by
    intro q hq
    rcases h.fits q with hnil | ⟨place, c, -, hcall, -⟩
    · exact hnil
    · rw [hq] at hcall
      cases hcall
  cases op with
  | read p count =>
      simp only [stepOf, pipeStep] at hstep
      split at hstep
      · next hcan =>
          cases hstep
          refine h.set_call (hidle p hcan.1) ?_ nofun ?_
          · intro c hc
            cases hc
            exact hcan.2
          · intro k _ hne
            cases k <;> exact absurd rfl hne
      · cases hstep
  | write p bytes =>
      simp only [stepOf, pipeStep] at hstep
      split at hstep
      · next hcan =>
          cases hstep
          refine h.set_call (hidle p hcan.1) ?_ nofun ?_
          · intro c hc
            cases hc
            exact hcan.2
          · intro k _ hne
            cases k <;> exact absurd rfl hne
      · cases hstep
  | advance p =>
      obtain ⟨hopen, htaking⟩ := hguard
      simp only [stepOf, pipeStep] at hstep
      split at hstep
      · cases hstep
      · next call hcall hframes =>
          cases hstep
          exact h.call_step hframes hcall (htaking call hcall)
      · next call k rest hcall hframes =>
          obtain ⟨io, hio, rfl⟩ := Option.map_eq_some_iff.mp hstep
          refine h.move hframes hcall hio (hopen k ?_)
          rw [IoQueueTasks.top, hframes]
          rfl
      · next call place rest hplace hcall hframes =>
          obtain ⟨io, hio, rfl⟩ := Option.map_eq_some_iff.mp hstep
          exact h.frame hframes (fun k heq => hplace k heq) hio
  | close p k =>
      simp only [stepOf, pipeStep] at hstep
      split at hstep
      · next hcan =>
          cases hstep
          obtain ⟨hsame, hopened⟩ := close_same s p k
          exact h.close_end hcan.1 hguard.2 hsame.io hsame.data hsame.calls hsame.ended hopened
            (h.ends.close hcan.2 hguard.1)
      · cases hstep
  | release p k =>
      simp only [stepOf, pipeStep] at hstep
      split at hstep
      · next hcan =>
          cases hstep
          obtain ⟨hsame, hopened⟩ := release_same s p k
          exact h.close_end hcan.1 hguard.2 hsame.io hsame.data hsame.calls hsame.ended hopened
            (h.ends.release hcan.2 hguard.1)
      · cases hstep

theorem pipe_inv_init {kind : PipeKind} {tasks : Side → List (Option Tid)}
    (h : Opened kind tasks) (buf : Nat → Nat) : PipeInv (.init kind tasks buf) := by
  refine ⟨fun _ => .inl rfl, nofun, nofun, ?_, ?_, ?_, nofun⟩
  · refine ⟨?_, ?_, ?_, h.slots, ?_, nofun⟩
    · rintro rfl k -
      exact ⟨rfl, rfl⟩
    · rintro rfl k hzero
      obtain ⟨p, hp⟩ := h.ends rfl k
      have hnot := open_count_eq_zero.mp hzero p
      exact absurd hp (of_decide_eq_false hnot)
    · rintro rfl k
      rfl
    · intro _ k p
      show (tasks k).count (some p) = (decide (some p ∈ tasks k)).toNat
      have hle := h.once k p
      by_cases hmem : some p ∈ tasks k
      · have := List.count_pos_iff.mpr hmem
        rw [decide_eq_true hmem]
        show _ = 1
        omega
      · rw [decide_eq_false hmem]
        exact List.count_eq_zero.mpr hmem
  · exact ⟨⟨[], io_queue_inv_init buf pipeSize 1, rfl⟩, rfl, rfl⟩
  · intro k _
    have hzero : (PipeTasks.init kind tasks buf).needed k = 0 :=
      Tally.tally_eq_zero.mpr fun _ => rfl
    omega

end

/-- Nobody is blocked at an end whose other end is closed for good, no pipe is freed under a task,
and the bytes come out once and in order, all of them before a read returns none. -/
structure PipeEof (s : PipeTasks Tid) : Prop where
  reader : s.Closed .put → ∀ p, BlockedIn s.io .get p → s.data.queue.size ≠ 0
  writer : s.Closed .get → ∀ p, BlockedIn s.io .put p → s.data.queue.size ≠ pipeSize
  freed : s.freed = true → ∀ p, s.calls p = none
  order : ∃ pending, s.data.puts = s.data.gets ++ pending ∧ pending.length = s.data.queue.size
  ended : s.ended = true → s.data.gets = s.data.puts

/-- A task that is blocked in the queue needs an item. -/
theorem PipeInv.blocked_needs {s : PipeTasks Tid} (h : PipeInv s) {k : Side} {p : Tid}
    (hp : BlockedIn s.io k p) : 0 < s.needed k := by
  refine Nat.lt_of_lt_of_le ?_ (need_le_needed s p k)
  obtain ⟨place, htop, hside, hmoved⟩ :
      ∃ place, s.io.top p = some place ∧ placeSide place = k ∧ moved place = false := by
    rcases hp with htop | htop
    · exact ⟨_, htop, rfl, rfl⟩
    · exact ⟨_, htop, rfl, rfl⟩
  rcases h.fits p with hnil | ⟨place', c, hframes, hcall, hplace, hneed⟩
  · rw [IoQueueTasks.top, hnil] at htop
    cases htop
  · rw [IoQueueTasks.top, hframes] at htop
    cases htop
    rw [hcall, need, if_pos (hplace.symm.trans hside)]
    exact hneed hmoved

theorem PipeInv.eof {s : PipeTasks Tid} (h : PipeInv s) : PipeEof s := by
  obtain ⟨pending, hinv, hputs⟩ := h.data.data
  refine ⟨?_, ?_, ?_, ⟨pending, hputs, hinv.size_eq.symm⟩, ?_⟩
  · intro hclosed p hp hempty
    have hpos := h.blocked_needs hp
    have hroom : s.needed .get ≤ s.data.queue.size := h.promise .get hclosed
    omega
  · intro hclosed p hp hfull
    have hpos := h.blocked_needs hp
    have hroom : s.needed .put ≤ pipeSize - s.data.queue.size := h.promise .put hclosed
    omega
  · intro hfreed p
    cases hcall : s.calls p with
    | none => rfl
    | some c =>
        have hown := h.own p c hcall
        rw [open_count_eq_zero.mp (h.ends.freed hfreed c.side) p] at hown
        cases hown
  · intro hended
    have hlength := hinv.size_eq
    rw [(h.ended hended).2] at hlength
    rw [hputs, List.eq_nil_of_length_eq_zero hlength.symm, List.append_nil]

/-- Task 0 has the read end, and task 1 has the write end. -/
def oneEach : Side → List (Option (Fin 2))
  | .get => [some 0, none]
  | .put => [some 1, none]

theorem one_each_opened (kind : PipeKind) : Opened kind oneEach := by
  refine ⟨rfl, ?_, ?_⟩
  · decide
  · intro _
    decide

/-- The task goes on for a number of steps. -/
def turns (p : Tid) (n : Nat) : List (PipeOp Tid) := .replicate n (.advance p)

/-- Two bytes are written, the write end is closed, and the reader reads twice. -/
def twoBytes : List (PipeOp (Fin 2)) :=
  .write 1 [7, 8] :: turns 1 10 ++ .close 1 .put :: .read 0 5 :: turns 0 11 ++
    .read 0 5 :: turns 0 3

end XBook.Pipes
