import XBook.Lib.Ring
import XBook.Lib.Transition
import XBook.Mm.Page

/-!
# Io queues

`kernel/ioqueue.c`. An io queue is a ring of items of `factor` bytes in a buffer. The pointers
`head` and `tail` are offsets into the buffer. The parts of `IoQueuePut` and `IoQueueGet` here are
those after the loop that waits; a call that does not block finds no task to wake.

The local `data` of `IoQueueGet` is not initialised, so the bytes above the item in the returned
word are whatever the stack held. `io_queue_fifo` says that the queue is a FIFO on the bytes of an
item in every run, and on whole words exactly when these stack bytes are zero.
-/

namespace XBook

open Transition

/-- `struct IoQueue`, without its lock and its waiters. -/
structure IoQueue where
  buf : Nat → Nat
  buflen : Nat
  head : Nat
  tail : Nat
  size : Nat
  factor : Nat

/-- `IoQueueInit`. -/
def ioQueueInit (buf : Nat → Nat) (buflen factor : Nat) : IoQueue :=
  { buf := fun i => if i < buflen then 0 else buf i
    buflen := buflen
    head := 0
    tail := 0
    size := 0
    factor := factor }

namespace IoQueue

/-- `IoQueueEmpty`. -/
def ioQueueEmpty (q : IoQueue) : Bool := q.size = 0

/-- `IoQueueFull`. -/
def ioQueueFull (q : IoQueue) : Bool := q.size = q.buflen / q.factor

/-- The statement `*ioQueue->head++ = *p++`, for as many bytes as a case of the `switch` has. -/
def putBytes : Nat → IoQueue → Nat → IoQueue
  | 0, q, _ => q
  | n + 1, q, data =>
      putBytes n { q with buf := Function.update q.buf q.head (data % 256), head := q.head + 1 }
        (data / 256)

/-- The statement `*p++ = *ioQueue->tail++`, for as many bytes as a case of the `switch` has. The
bytes of `data` that are not assigned keep what the stack held. -/
def getBytes : Nat → IoQueue → Nat → IoQueue × Nat
  | 0, q, data => (q, data)
  | n + 1, q, data =>
      let r := getBytes n { q with tail := q.tail + 1 } (data / 256)
      (r.1, q.buf q.tail + 256 * r.2)

/-- The number of bytes that the `switch` copies. With 8 the source runs over `data` into the rest
of the stack, which is not followed here. -/
def copied (q : IoQueue) : Nat := if q.factor ∈ [1, 2, 4, 8] then q.factor else 0

/-- `IoQueuePut` after its loop. -/
def ioQueuePut (q : IoQueue) (data : Nat) : IoQueue :=
  let q := putBytes q.copied q data
  let q := { q with size := q.size + 1 }
  if q.head ≥ q.buflen then { q with head := 0 } else q

/-- `IoQueueGet` after its loop, with the old contents of the stack slot of `data`. -/
def ioQueueGet (q : IoQueue) (stack : Nat) : IoQueue × Nat :=
  let r := getBytes q.copied q stack
  let q : IoQueue := { r.1 with size := r.1.size - 1 }
  (if q.tail ≥ q.buflen then { q with tail := 0 } else q, r.2)

end IoQueue

/-- A call that does not block. -/
inductive IoQueueOp where
  | put (data : UInt32)
  | get (stack : UInt32)

/-- A queue with the values that were put and got. -/
structure IoQueueTrace where
  queue : IoQueue
  puts : List Nat
  gets : List Nat

/-- One call that does not block. -/
def ioQueueStep (s : IoQueueTrace) : IoQueueOp → Option IoQueueTrace
  | .put data =>
      if s.queue.ioQueueFull then none
      else some { s with
        queue := s.queue.ioQueuePut data.toNat
        puts := s.puts ++ [data.toNat] }
  | .get stack =>
      if s.queue.ioQueueEmpty then none
      else
        let r := s.queue.ioQueueGet stack.toNat
        some { s with
          queue := r.1
          gets := s.gets ++ [r.2] }

/-- The trace that starts with `IoQueueInit`. -/
def IoQueueTrace.init (buf : Nat → Nat) (buflen factor : Nat) : IoQueueTrace :=
  ⟨ioQueueInit buf buflen factor, [], []⟩

namespace IoQueue

/-- The little-endian number in `n` bytes. -/
def readBytes (buf : Nat → Nat) : Nat → Nat → Nat
  | 0, _ => 0
  | n + 1, offset => buf offset + 256 * readBytes buf n (offset + 1)

/-- The item at an index of the buffer. -/
def item (q : IoQueue) (i : Nat) : Nat := readBytes q.buf q.factor (q.factor * i)

end IoQueue

/-! ## The bytes of an item -/

theorem read_bytes_congr {b b' : Nat → Nat} {n offset : Nat}
    (h : ∀ j, offset ≤ j → j < offset + n → b j = b' j) :
    IoQueue.readBytes b n offset = IoQueue.readBytes b' n offset := by
  induction n generalizing offset with
  | zero => rfl
  | succ n ih =>
      simp only [IoQueue.readBytes]
      rw [h offset (Nat.le_refl _) (by omega), ih]
      intro j hj hlt
      exact h j (by omega) (by omega)

/-- Putting bytes moves the head and changes nothing else but the buffer. -/
theorem put_bytes_state (n : Nat) (q : IoQueue) (data : Nat) :
    q.putBytes n data = { q with buf := (q.putBytes n data).buf, head := q.head + n } := by
  induction n generalizing q data with
  | zero => rfl
  | succ n ih =>
      simp only [IoQueue.putBytes]
      rw [ih]
      simp only [Nat.add_assoc, Nat.add_comm 1 n]

/-- The bytes outside the copied ones stay. -/
theorem put_bytes_outside {n : Nat} {q : IoQueue} {data j : Nat}
    (hj : j < q.head ∨ q.head + n ≤ j) : (q.putBytes n data).buf j = q.buf j := by
  induction n generalizing q data with
  | zero => rfl
  | succ n ih =>
      simp only [IoQueue.putBytes]
      rw [ih]
      · exact Function.update_of_ne (by omega) ..
      · simp only
        omega

/-- The copied bytes are the low ones of the data. -/
theorem read_put_bytes (n : Nat) (q : IoQueue) (data : Nat) :
    IoQueue.readBytes (q.putBytes n data).buf n q.head = data % 256 ^ n := by
  induction n generalizing q data with
  | zero => simp [IoQueue.readBytes, Nat.mod_one]
  | succ n ih =>
      have hfirst : (q.putBytes (n + 1) data).buf q.head = data % 256 := by
        simp only [IoQueue.putBytes]
        rw [put_bytes_outside]
        · exact Function.update_self ..
        · exact .inl (Nat.lt_succ_self _)
      have hrest := ih { q with
        buf := Function.update q.buf q.head (data % 256), head := q.head + 1 } (data / 256)
      simp only [IoQueue.readBytes, hfirst]
      rw [Nat.pow_succ', Nat.mod_mul, ← hrest]
      rfl

/-- Getting bytes moves the tail and assembles the item under the old upper bytes. -/
theorem get_bytes_spec (n : Nat) (q : IoQueue) (data : Nat) :
    q.getBytes n data = ({ q with tail := q.tail + n },
      IoQueue.readBytes q.buf n q.tail + 256 ^ n * (data / 256 ^ n)) := by
  induction n generalizing q data with
  | zero => simp [IoQueue.getBytes, IoQueue.readBytes]
  | succ n ih =>
      simp only [IoQueue.getBytes, ih, IoQueue.readBytes, Nat.add_assoc, Nat.add_comm 1 n,
        Nat.pow_succ', Nat.div_div_eq_div_mul, Nat.mul_add, Nat.mul_assoc]

/-! ## The queue and its items -/

/-- What an item keeps of a value. -/
def lowBytes (factor value : Nat) : Nat := value % 256 ^ factor

/-- The queue holds the values put and not yet got, with `pending` their low bytes. -/
structure IoQueueInv (buflen factor : Nat) (s : IoQueueTrace) (pending : List Nat) : Prop where
  factor_eq : s.queue.factor = factor
  buflen_eq : s.queue.buflen = buflen
  queued : s.puts.map (lowBytes factor) = s.gets.map (lowBytes factor) ++ pending
  size_eq : s.queue.size = pending.length
  head_eq : s.queue.head = factor * (s.puts.length % (buflen / factor))
  tail_eq : s.queue.tail = factor * (s.gets.length % (buflen / factor))
  holds : Ring.Holds (buflen / factor) s.queue.item s.gets.length pending

section

variable {buflen factor : Nat}

/-- The next position of a pointer. -/
theorem next_position (hfactor : 0 < factor) (hdvd : factor ∣ buflen) (hpos : 0 < buflen)
    (n : Nat) :
    (if factor * (n % (buflen / factor)) + factor ≥ buflen then 0
      else factor * (n % (buflen / factor)) + factor) = factor * ((n + 1) % (buflen / factor)) := by
  have hcap : 0 < buflen / factor := Nat.div_pos (Nat.le_of_dvd hpos hdvd) hfactor
  have hlen : buflen = factor * (buflen / factor) := (Nat.mul_div_cancel' hdvd).symm
  have hlt : n % (buflen / factor) < buflen / factor := Nat.mod_lt _ hcap
  have hend : factor * (n % (buflen / factor)) + factor ≥ buflen ↔
      n % (buflen / factor) + 1 = buflen / factor := by
    rw [← Nat.mul_succ, ge_iff_le]
    constructor
    · intro hle
      have : buflen / factor ≤ n % (buflen / factor) + 1 :=
        Nat.le_of_mul_le_mul_left (hlen ▸ hle) hfactor
      omega
    · intro heq
      rw [Nat.succ_eq_add_one, heq, ← hlen]
  rw [Ring.next_slot hcap]
  by_cases hlast : n % (buflen / factor) + 1 = buflen / factor
  · rw [if_pos (hend.mpr hlast), if_pos hlast, Nat.mul_zero]
  · rw [if_neg (fun h => hlast (hend.mp h)), if_neg hlast, Nat.mul_add, Nat.mul_one]

/-- A pointer leaves room for an item. -/
theorem position_in_bounds (hfactor : 0 < factor) (hdvd : factor ∣ buflen) (hpos : 0 < buflen)
    (n : Nat) : factor * (n % (buflen / factor)) + factor ≤ buflen := by
  have hcap : 0 < buflen / factor := Nat.div_pos (Nat.le_of_dvd hpos hdvd) hfactor
  have hlt : n % (buflen / factor) < buflen / factor := Nat.mod_lt _ hcap
  have hmul := Nat.mul_le_mul_left factor (Nat.succ_le_of_lt hlt)
  rwa [Nat.mul_div_cancel' hdvd, Nat.mul_succ] at hmul

variable {s t : IoQueueTrace} {pending : List Nat}

theorem copied_eq (hfactor : factor ∈ [1, 2, 4]) {q : IoQueue} (hq : q.factor = factor) :
    q.copied = factor := by
  have hmem : q.factor ∈ [1, 2, 4, 8] := by
    rw [hq]
    simp only [List.mem_cons, List.not_mem_nil, or_false] at hfactor ⊢
    omega
  rw [IoQueue.copied, if_pos hmem, hq]

/-- Putting changes the item at the head. -/
theorem item_put (hfactor : factor ∈ [1, 2, 4]) (h : IoQueueInv buflen factor s pending)
    (data : Nat) : (s.queue.ioQueuePut data).item =
      Function.update s.queue.item (s.puts.length % (buflen / factor)) (lowBytes factor data) := by
  have hbuf : (s.queue.ioQueuePut data).buf = (s.queue.putBytes factor data).buf := by
    rw [IoQueue.ioQueuePut, copied_eq hfactor h.factor_eq]
    split <;> rfl
  have hfac : (s.queue.ioQueuePut data).factor = factor := by
    rw [IoQueue.ioQueuePut, put_bytes_state]
    split <;> exact h.factor_eq
  funext i
  rw [IoQueue.item, hbuf, hfac]
  by_cases hi : i = s.puts.length % (buflen / factor)
  · subst hi
    rw [Function.update_self, ← h.head_eq]
    exact read_put_bytes factor s.queue data
  · rw [Function.update_of_ne hi, IoQueue.item, h.factor_eq]
    refine read_bytes_congr ?_
    intro j hle hlt
    refine put_bytes_outside ?_
    rw [h.head_eq]
    rcases Nat.lt_or_gt_of_ne hi with hlow | hhigh
    · have hmul := Nat.mul_le_mul_left factor (Nat.succ_le_of_lt hlow)
      rw [Nat.mul_succ] at hmul
      omega
    · have hmul := Nat.mul_le_mul_left factor (Nat.succ_le_of_lt hhigh)
      rw [Nat.mul_succ] at hmul
      omega

theorem IoQueueInv.put (hfactor : factor ∈ [1, 2, 4]) (hdvd : factor ∣ buflen) (hpos : 0 < buflen)
    (h : IoQueueInv buflen factor s pending) (hroom : s.queue.ioQueueFull = false) (data : Nat) :
    IoQueueInv buflen factor
      { s with queue := s.queue.ioQueuePut data, puts := s.puts ++ [data] }
      (pending ++ [lowBytes factor data]) := by
  have hpositive : 0 < factor := Nat.pos_of_dvd_of_pos hdvd hpos
  have hlength : s.puts.length = s.gets.length + pending.length := by
    have := congrArg List.length h.queued
    simpa using this
  have hsize : pending.length < buflen / factor := by
    have hne : pending.length ≠ buflen / factor := by
      simpa [IoQueue.ioQueueFull, h.size_eq, h.buflen_eq, h.factor_eq] using hroom
    exact Nat.lt_of_le_of_ne h.holds.le hne
  have hitem := item_put hfactor h data
  have hnext := next_position hpositive hdvd hpos s.puts.length
  have hstate : s.queue.ioQueuePut data = { s.queue with
      buf := (s.queue.ioQueuePut data).buf
      head := factor * ((s.puts.length + 1) % (buflen / factor))
      size := s.queue.size + 1 } := by
    rw [← hnext, ← h.head_eq, IoQueue.ioQueuePut, copied_eq hfactor h.factor_eq, put_bytes_state]
    simp only [h.buflen_eq]
    split <;> rfl
  refine ⟨?_, ?_, ?_, ?_, ?_, ?_, ?_⟩
  · rw [hstate]
    exact h.factor_eq
  · rw [hstate]
    exact h.buflen_eq
  · simp only [List.map_append, h.queued, List.append_assoc, List.map_cons, List.map_nil]
  · rw [hstate]
    simp only [h.size_eq, List.length_append, List.length_singleton]
  · rw [hstate]
    simp only [List.length_append, List.length_singleton]
  · rw [hstate]
    exact h.tail_eq
  · simp only [hitem, hlength]
    exact h.holds.push hsize _

theorem IoQueueInv.get (hfactor : factor ∈ [1, 2, 4]) (hdvd : factor ∣ buflen) (hpos : 0 < buflen)
    {item : Nat} (h : IoQueueInv buflen factor s (item :: pending)) (stack : Nat) :
    IoQueueInv buflen factor
      { s with
        queue := (s.queue.ioQueueGet stack).1
        gets := s.gets ++ [(s.queue.ioQueueGet stack).2] } pending ∧
    (s.queue.ioQueueGet stack).2 = item + 256 ^ factor * (stack / 256 ^ factor) := by
  have hpositive : 0 < factor := Nat.pos_of_dvd_of_pos hdvd hpos
  obtain ⟨hfront, hrest⟩ := h.holds.pop
  have hnext := next_position hpositive hdvd hpos s.gets.length
  have hvalue : (s.queue.ioQueueGet stack).2 = item + 256 ^ factor * (stack / 256 ^ factor) := by
    rw [IoQueue.ioQueueGet, copied_eq hfactor h.factor_eq, get_bytes_spec, ← hfront, IoQueue.item,
      h.factor_eq, h.tail_eq]
  have hstate : (s.queue.ioQueueGet stack).1 = { s.queue with
      tail := factor * ((s.gets.length + 1) % (buflen / factor))
      size := s.queue.size - 1 } := by
    rw [← hnext, ← h.tail_eq, IoQueue.ioQueueGet, copied_eq hfactor h.factor_eq, get_bytes_spec]
    simp only [h.buflen_eq]
    split <;> rfl
  have hlow : lowBytes factor item = item := by
    have hmem : item ∈ s.puts.map (lowBytes factor) := by
      rw [h.queued]
      simp
    obtain ⟨value, -, hvalue⟩ := List.mem_map.mp hmem
    rw [← hvalue]
    exact Nat.mod_mod _ _
  refine ⟨⟨?_, ?_, ?_, ?_, ?_, ?_, ?_⟩, hvalue⟩
  · rw [hstate]
    exact h.factor_eq
  · rw [hstate]
    exact h.buflen_eq
  · have hgot : lowBytes factor (item + 256 ^ factor * (stack / 256 ^ factor)) = item := by
      rw [lowBytes, Nat.add_mul_mod_self_left]
      exact hlow
    simp only [List.map_append, List.map_cons, List.map_nil, hvalue, hgot, h.queued,
      List.append_assoc, List.singleton_append]
  · rw [hstate]
    simp only [h.size_eq, List.length_cons, Nat.add_sub_cancel]
  · rw [hstate]
    exact h.head_eq
  · rw [hstate]
    simp only [List.length_append, List.length_singleton]
  · rw [hstate]
    simp only [List.length_append, List.length_singleton]
    exact hrest

/-! ## Runs -/

/-- The stack word of a get has nothing above the item. -/
def IoQueueOp.Clean (factor : Nat) : IoQueueOp → Prop
  | .put _ => True
  | .get stack => stack.toNat < 256 ^ factor

/-- A word with an item in its low bytes is that item exactly when its upper bytes are zero. -/
theorem item_word_lt {item : Nat} (hitem : item < 256 ^ factor) (stack : Nat) :
    item + 256 ^ factor * (stack / 256 ^ factor) < 256 ^ factor ↔ stack < 256 ^ factor := by
  have hpos : 0 < 256 ^ factor := Nat.pow_pos (by decide)
  constructor
  · intro hlt
    by_contra hge
    have hdiv : 1 ≤ stack / 256 ^ factor := Nat.div_pos (Nat.le_of_not_lt hge) hpos
    have hmul := Nat.mul_le_mul_left (256 ^ factor) hdiv
    omega
  · intro hlt
    rw [Nat.div_eq_of_lt hlt]
    omega

/-- One call keeps the invariant, and returns an item when its stack word is clean. -/
theorem IoQueueInv.step (hfactor : factor ∈ [1, 2, 4]) (hdvd : factor ∣ buflen) (hpos : 0 < buflen)
    (h : IoQueueInv buflen factor s pending) {op : IoQueueOp} (hstep : ioQueueStep s op = some t) :
    (∃ pending', IoQueueInv buflen factor t pending') ∧
      ((∀ v ∈ t.gets, v < 256 ^ factor) ↔ (∀ v ∈ s.gets, v < 256 ^ factor) ∧ op.Clean factor) := by
  cases op with
  | put data =>
      simp only [ioQueueStep] at hstep
      split at hstep
      · cases hstep
      · next hroom =>
          cases Option.some.inj hstep
          refine ⟨⟨_, h.put hfactor hdvd hpos (by simpa using hroom) data.toNat⟩, ?_⟩
          simp [IoQueueOp.Clean]
  | get stack =>
      simp only [ioQueueStep] at hstep
      split at hstep
      · cases hstep
      · next hdata =>
          cases Option.some.inj hstep
          cases pending with
          | nil => simp [IoQueue.ioQueueEmpty, h.size_eq] at hdata
          | cons item pending =>
              obtain ⟨hinv, hvalue⟩ := h.get hfactor hdvd hpos stack.toNat
              have hitem : item < 256 ^ factor := by
                have hmem : item ∈ s.puts.map (lowBytes factor) := by
                  rw [h.queued]
                  simp
                obtain ⟨value, -, hlow⟩ := List.mem_map.mp hmem
                rw [← hlow]
                exact Nat.mod_lt _ (Nat.pow_pos (by decide))
              refine ⟨⟨pending, hinv⟩, ?_⟩
              simp only [List.forall_mem_append, List.forall_mem_singleton, hvalue,
                item_word_lt hitem, IoQueueOp.Clean]

/-- A run keeps the invariant, and returns items when all its stack words are clean. -/
theorem IoQueueInv.run (hfactor : factor ∈ [1, 2, 4]) (hdvd : factor ∣ buflen) (hpos : 0 < buflen)
    (h : IoQueueInv buflen factor s pending) {ops : List IoQueueOp}
    (hrun : Run (stepOf ioQueueStep) anyLabel s ops t) :
    (∃ pending', IoQueueInv buflen factor t pending') ∧
      ((∀ v ∈ t.gets, v < 256 ^ factor) ↔
        (∀ v ∈ s.gets, v < 256 ^ factor) ∧ ∀ op ∈ ops, op.Clean factor) := by
  induction hrun generalizing pending with
  | nil => exact ⟨⟨pending, h⟩, by simp⟩
  | cons _ hstep _ ih =>
      obtain ⟨⟨pending', hinv⟩, hclean⟩ := h.step hfactor hdvd hpos hstep
      obtain ⟨hlast, hrest⟩ := ih hinv
      refine ⟨hlast, ?_⟩
      rw [hrest, hclean, List.forall_mem_cons, and_assoc]

theorem io_queue_inv_init (buf : Nat → Nat) (buflen factor : Nat) :
    IoQueueInv buflen factor (.init buf buflen factor) [] :=
  ⟨rfl, rfl, rfl, rfl, by simp [IoQueueTrace.init, ioQueueInit],
    by simp [IoQueueTrace.init, ioQueueInit], Ring.Holds.nil ..⟩

end

namespace IoQueueTrace

/-- The `k`-th value got is the low bytes of the `k`-th value put. -/
def Fifo (factor : Nat) (s : IoQueueTrace) : Prop :=
  ∀ k value : Nat, s.gets[k]? = some value →
    ∃ put, s.puts[k]? = some put ∧ value = lowBytes factor put

/-- The low bytes of the `k`-th value got are those of the `k`-th value put. -/
def FifoLow (factor : Nat) (s : IoQueueTrace) : Prop :=
  ∀ k value : Nat, s.gets[k]? = some value →
    ∃ put, s.puts[k]? = some put ∧ lowBytes factor value = lowBytes factor put

/-- The stored size is the number of items put and not got, and does not exceed the capacity. -/
def Sized (s : IoQueueTrace) : Prop :=
  s.puts.length = s.gets.length + s.queue.size ∧ s.queue.size ≤ s.queue.buflen / s.queue.factor

/-- The next item to be put and the next to be got lie in the buffer. -/
def InBounds (s : IoQueueTrace) : Prop :=
  s.queue.head + s.queue.factor ≤ s.queue.buflen ∧ s.queue.tail + s.queue.factor ≤ s.queue.buflen

end IoQueueTrace

theorem IoQueueInv.fifo_low {buflen factor : Nat} {s : IoQueueTrace} {pending : List Nat}
    (h : IoQueueInv buflen factor s pending) : s.FifoLow factor := by
  intro k value hvalue
  have hmap := congrArg (fun l => l[k]?) h.queued
  have hlt : k < s.gets.length := (List.getElem?_eq_some_iff.mp hvalue).1
  simp only [List.getElem?_map] at hmap
  rw [List.getElem?_append_left (by simpa using hlt), List.getElem?_map, hvalue] at hmap
  obtain ⟨put, hput, hlow⟩ := Option.map_eq_some_iff.mp hmap
  exact ⟨put, hput, hlow.symm⟩

/-- In every run of calls that do not block, the queue is a FIFO on the bytes of its items, of the
right size and inside its buffer; it is a FIFO on whole words exactly when the stack words that
`IoQueueGet` returns a part of are clean. -/
theorem io_queue_fifo {buf : Nat → Nat} {buflen factor : Nat} (hfactor : factor ∈ [1, 2, 4])
    (hdvd : factor ∣ buflen) (hpos : 0 < buflen) {s : IoQueueTrace} {ops : List IoQueueOp}
    (hrun : Run (stepOf ioQueueStep) anyLabel (.init buf buflen factor) ops s) :
    (s.Fifo factor ↔ ∀ op ∈ ops, op.Clean factor) ∧
      s.FifoLow factor ∧ s.Sized ∧ s.InBounds := by
  obtain ⟨⟨pending, hinv⟩, hclean⟩ :=
    (io_queue_inv_init buf buflen factor).run hfactor hdvd hpos hrun
  have hpositive : 0 < factor := Nat.pos_of_dvd_of_pos hdvd hpos
  have hlow := hinv.fifo_low
  refine ⟨?_, hlow, ⟨?_, ?_⟩, ?_, ?_⟩
  · have hexact : s.Fifo factor ↔ ∀ v ∈ s.gets, v < 256 ^ factor := by
      constructor
      · intro hfifo v hv
        obtain ⟨k, hk⟩ := List.mem_iff_getElem?.mp hv
        obtain ⟨put, -, hput⟩ := hfifo k v hk
        rw [hput]
        exact Nat.mod_lt _ (Nat.pow_pos (by decide))
      · intro hlt k v hk
        obtain ⟨put, hput, hvalue⟩ := hlow k v hk
        refine ⟨put, hput, ?_⟩
        rw [← hvalue]
        exact (Nat.mod_eq_of_lt (hlt v (List.mem_of_getElem? hk))).symm
    rw [hexact, hclean]
    simp [IoQueueTrace.init]
  · have hlength := congrArg List.length hinv.queued
    rw [hinv.size_eq]
    simpa using hlength
  · rw [hinv.size_eq, hinv.buflen_eq, hinv.factor_eq]
    exact hinv.holds.le
  · rw [hinv.head_eq, hinv.buflen_eq, hinv.factor_eq]
    exact position_in_bounds hpositive hdvd hpos _
  · rw [hinv.tail_eq, hinv.buflen_eq, hinv.factor_eq]
    exact position_in_bounds hpositive hdvd hpos _

/-- Three items through a queue of two. -/
def threeItems : List IoQueueOp :=
  [.put 0x11112222, .put 0x33334444, .get 0x10, .put 0x5555, .get 0x20]

theorem three_items_fifo : ∃ s,
    Run (stepOf ioQueueStep) anyLabel (.init (fun _ => 0) 4 2) threeItems s ∧
      s.gets = [0x2222, 0x4444] ∧ s.Fifo 2 := by
  obtain ⟨s, t, hinit, hrun, hgets⟩ := exists_run_all ioQueueStep
    (some (.init (fun _ => 0) 4 2)) threeItems IoQueueTrace.gets (v := [0x2222, 0x4444])
    (by decide +kernel)
  cases Option.some.inj hinit
  have hclean : ∀ op ∈ threeItems, op.Clean 2 := by
    intro op hop
    simp only [threeItems, List.mem_cons, List.not_mem_nil, or_false] at hop
    obtain rfl | rfl | rfl | rfl | rfl := hop <;> simp [IoQueueOp.Clean]
  exact ⟨t, hrun, hgets, (io_queue_fifo (by decide) (by decide) (by decide) hrun).1.mpr hclean⟩

/-- An item of one byte comes back under three bytes of the stack. -/
theorem stack_bytes_returned : ∃ s,
    Run (stepOf ioQueueStep) anyLabel (.init (fun _ => 0) 64 1) [.put 0x41, .get 0xC0001000] s ∧
      s.gets = [0xC0001041] ∧ ¬ s.Fifo 1 := by
  obtain ⟨s, t, hinit, hrun, hview⟩ := exists_run_all ioQueueStep
    (some (.init (fun _ => 0) 64 1)) [.put 0x41, .get 0xC0001000]
    (fun s => (s.puts, s.gets)) (v := ([0x41], [0xC0001041])) (by decide +kernel)
  cases Option.some.inj hinit
  obtain ⟨hputs, hgets⟩ := Prod.mk.inj hview
  refine ⟨t, hrun, hgets, ?_⟩
  intro hfifo
  obtain ⟨put, hput, hvalue⟩ := hfifo 0 0xC0001041 (by rw [hgets]; rfl)
  rw [hputs] at hput
  cases Option.some.inj hput
  exact absurd hvalue (by decide)

end XBook
