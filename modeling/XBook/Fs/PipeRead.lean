import XBook.Fs.Pipe

/-!
# The bytes of a pipe

`BOFS_PipeRead` of `fs/bofs/pipe.c` and `BOFS_FifoRead` of `fs/bofs/fifo.c` as one call each, with
nobody else at the queue. `pipe_read_iff` says for which queues and counts the two read the same,
namely the oldest bytes and no more than `count`.
-/

namespace XBook.Pipes

/-- A read: the queue, what is stored from the buffer on, and the number that is returned. -/
structure ReadCall where
  queue : IoQueue
  stored : List UInt8
  bytesRead : Nat

namespace ReadCall

/-- The statement `*buf++ = IoQueueGet(ioqueue)` with the count behind it, and what the stack holds
at the call. On an empty queue the call waits, and there is nobody who puts. -/
def getByte (stack : Nat → UInt32) (c : ReadCall) : Option ReadCall :=
  if c.queue.ioQueueEmpty then none
  else
    let r := c.queue.ioQueueGet (stack c.bytesRead).toNat
    some ⟨r.1, c.stored ++ [UInt8.ofNat r.2], c.bytesRead + 1⟩

/-- The loop that gets a number of bytes. -/
def getBytes (stack : Nat → UInt32) (c : ReadCall) : Nat → Option ReadCall
  | 0 => some c
  | len + 1 => (c.getByte stack).bind fun c => c.getBytes stack len

end ReadCall

section Reads

variable (stack : Nat → UInt32) (q : IoQueue) (writeReference : Int) (count : UInt32)

/-- The first byte, and what is there of the rest. Both calls have this part. -/
def readWithWriter : Option ReadCall :=
  (ReadCall.getByte stack ⟨q, [], 0⟩).bind fun c =>
    c.getBytes stack (min (count - 1).toNat c.queue.size)

/-- `BOFS_PipeRead`. Without a writer it does not look at `count`. -/
def pipeRead : Option ReadCall :=
  if writeReference > 0 then readWithWriter stack q count
  else ReadCall.getBytes stack ⟨q, [], 0⟩ q.size

/-- `BOFS_FifoRead`. -/
def fifoRead : Option ReadCall :=
  if writeReference > 0 then readWithWriter stack q count
  else ReadCall.getBytes stack ⟨q, [], 0⟩ (min count.toNat q.size)

end Reads

/-- The queue of a pipe holds the bytes that have been put and not yet got. -/
def Queued (q : IoQueue) (content : List UInt8) : Prop :=
  ∃ s : IoQueueTrace, s.queue = q ∧ IoQueueInv pipeSize 1 s (content.map UInt8.toNat)

/-- At most `count` bytes are stored, as many as are returned; they are the oldest ones, and the
others are still there. -/
structure OldestBytes (content : List UInt8) (count : UInt32) (c : ReadCall) : Prop where
  atMost : c.stored.length ≤ count.toNat
  result : c.bytesRead = c.stored.length
  oldest : c.stored = content.take c.stored.length
  rest : Queued c.queue (content.drop c.stored.length)

/-- A read of a pipe gives the oldest bytes, and the same ones as that of a FIFO. -/
structure PipeReads (stack : Nat → UInt32) (q : IoQueue) (content : List UInt8)
    (writeReference : Int) (count : UInt32) : Prop where
  bytes : ∀ c, pipeRead stack q writeReference count = some c → OldestBytes content count c
  same : (pipeRead stack q writeReference count).map ReadCall.stored =
    (fifoRead stack q writeReference count).map ReadCall.stored

variable {stack : Nat → UInt32} {q : IoQueue} {content : List UInt8} {writeReference : Int}
  {count : UInt32}

/-! ## The bytes of the loop -/

theorem Queued.size (h : Queued q content) : q.size = content.length := by
  obtain ⟨s, rfl, hinv⟩ := h
  rw [hinv.size_eq, List.length_map]

/-- The low byte of the returned word. -/
theorem low_byte (b : UInt8) (word : Nat) :
    UInt8.ofNat (b.toNat + 256 ^ 1 * (word / 256 ^ 1)) = b := by
  rw [Nat.pow_one, ← UInt8.toNat_inj, UInt8.toNat_ofNat']
  have hlt := b.toNat_lt
  omega

/-- A byte is got from the front of the queue. -/
theorem get_byte_eq (stack : Nat → UInt32) {b : UInt8} {c : ReadCall}
    (h : Queued c.queue (b :: content)) :
    ∃ c', c.getByte stack = some c' ∧ Queued c'.queue content ∧ c'.stored = c.stored ++ [b] ∧
      c'.bytesRead = c.bytesRead + 1 := by
  have hsize := h.size
  obtain ⟨s, hs, hinv⟩ := h
  have hmore : c.queue.ioQueueEmpty = false := by
    rw [IoQueue.ioQueueEmpty, hsize]
    rfl
  rw [List.map_cons] at hinv
  obtain ⟨hnext, hvalue⟩ := hinv.get (by decide) (by decide) (by decide)
    (stack c.bytesRead).toNat
  rw [ReadCall.getByte, hmore]
  refine ⟨_, rfl, ⟨_, ?_, hnext⟩, ?_, rfl⟩
  · rw [hs]
  · simp only
    rw [← hs, hvalue, low_byte]

/-- The loop gets the oldest bytes in their order. -/
theorem get_bytes_eq (stack : Nat → UInt32) {c : ReadCall} {len : Nat}
    (h : Queued c.queue content) (hlen : len ≤ content.length) :
    ∃ c', c.getBytes stack len = some c' ∧ Queued c'.queue (content.drop len) ∧
      c'.stored = c.stored ++ content.take len ∧ c'.bytesRead = c.bytesRead + len := by
  induction len generalizing c content with
  | zero =>
      refine ⟨c, rfl, h, ?_, rfl⟩
      rw [List.take_zero, List.append_nil]
  | succ len ih =>
      cases content with
      | nil => exact absurd hlen (Nat.not_succ_le_zero len)
      | cons b content =>
          obtain ⟨c₁, hfirst, hqueue, hstored, hread⟩ := get_byte_eq stack h
          obtain ⟨c₂, hloop, hrest, hall, hcount⟩ := ih hqueue (Nat.le_of_succ_le_succ hlen)
          refine ⟨c₂, ?_, ?_, ?_, by omega⟩
          · rw [ReadCall.getBytes, hfirst, Option.bind_some, hloop]
          · rw [List.drop_succ_cons]
            exact hrest
          · rw [hall, hstored, List.append_assoc, List.take_succ_cons]
            rfl

/-- The loop from the start of a call. -/
theorem get_bytes_oldest (stack : Nat → UInt32) (count : UInt32) {len : Nat}
    (h : Queued q content) (hlen : len ≤ content.length) :
    ∃ c, ReadCall.getBytes stack ⟨q, [], 0⟩ len = some c ∧ c.stored.length = len ∧
      (len ≤ count.toNat → OldestBytes content count c) := by
  obtain ⟨c, hloop, hqueue, hstored, hread⟩ :=
    get_bytes_eq stack (c := ⟨q, [], 0⟩) h hlen
  rw [List.nil_append] at hstored
  have hlength : c.stored.length = len := by
    rw [hstored, List.length_take_of_le hlen]
  refine ⟨c, hloop, hlength, fun hle => ⟨?_, ?_, ?_, ?_⟩⟩
  · rw [hlength]
    exact hle
  · rw [hread, hlength, Nat.zero_add]
  · rw [hlength]
    exact hstored
  · rw [hlength]
    exact hqueue

/-- With a writer the call gets at most `count` bytes. -/
theorem read_with_writer (hq : Queued q content) (hcount : count ≠ 0) {c : ReadCall}
    (h : readWithWriter stack q count = some c) : OldestBytes content count c := by
  have hone : 1 ≤ count.toNat := by
    rw [Nat.one_le_iff_ne_zero]
    exact fun hzero => hcount (UInt32.toNat_inj.mp hzero)
  have hrest : (count - 1).toNat = count.toNat - 1 :=
    UInt32.toNat_sub_of_le _ _ (UInt32.le_iff_toNat_le.mpr hone)
  cases content with
  | nil =>
      rw [readWithWriter, ReadCall.getByte, IoQueue.ioQueueEmpty, hq.size] at h
      cases h
  | cons b content =>
      obtain ⟨c₁, hfirst, hqueue, hstored, hread⟩ :=
        get_byte_eq stack (c := ⟨q, [], 0⟩) hq
      rw [readWithWriter, hfirst, Option.bind_some, hqueue.size, hrest] at h
      -- the two parts are one loop
      have hloop : ReadCall.getBytes stack ⟨q, [], 0⟩
          (min (count.toNat - 1) content.length + 1) = some c := by
        rw [ReadCall.getBytes, hfirst, Option.bind_some]
        exact h
      have hlen : min (count.toNat - 1) content.length + 1 ≤ (b :: content).length := by
        rw [List.length_cons]
        omega
      obtain ⟨c', hget, -, hold⟩ := get_bytes_oldest stack count hq hlen
      rw [hloop] at hget
      cases hget
      exact hold (by omega)

/-! ## The law -/

/-- A read of a pipe gives the oldest bytes, at most `count` of them and the same as that of a FIFO,
if and only if the pipe has a writer or holds no more than `count` bytes. -/
theorem pipe_read_iff (stack : Nat → UInt32) (hq : Queued q content) (writeReference : Int)
    (hcount : count ≠ 0) : PipeReads stack q content writeReference count ↔
      0 < writeReference ∨ content.length ≤ count.toNat := by
  by_cases hwriter : 0 < writeReference
  · refine iff_of_true ⟨?_, ?_⟩ (.inl hwriter)
    · intro c hread
      rw [pipeRead, if_pos hwriter] at hread
      exact read_with_writer hq hcount hread
    · rw [pipeRead, fifoRead, if_pos hwriter, if_pos hwriter]
  · obtain ⟨c, hloop, hlength, hold⟩ :=
      get_bytes_oldest stack count hq (Nat.le_refl content.length)
    have hread : pipeRead stack q writeReference count = some c := by
      rw [pipeRead, if_neg hwriter, hq.size, hloop]
    constructor
    · intro hlaw
      right
      rw [← hlength]
      exact (hlaw.bytes c hread).atMost
    · rintro (hgt | hle)
      · exact absurd hgt hwriter
      · refine ⟨?_, ?_⟩
        · intro c' hread'
          rw [hread] at hread'
          cases hread'
          exact hold hle
        · rw [pipeRead, fifoRead, if_neg hwriter, if_neg hwriter, hq.size, Nat.min_eq_right hle]

/-- Any bytes that fit can be in the queue of a pipe. -/
theorem exists_queued (content : List UInt8) (h : content.length ≤ pipeSize) :
    ∃ q, Queued q content := by
  induction content using List.reverseRecOn with
  | nil => exact ⟨_, _, rfl, io_queue_inv_init (fun _ => 0) pipeSize 1⟩
  | append_singleton content b ih =>
      rw [List.length_append, List.length_singleton] at h
      obtain ⟨q, hq⟩ := ih (by omega)
      have hsize := hq.size
      obtain ⟨s, rfl, hinv⟩ := hq
      have hroom : s.queue.ioQueueFull = false := by
        rw [IoQueue.ioQueueFull, hinv.buflen_eq, hinv.factor_eq, hsize]
        simpa using by omega
      have hput := hinv.put (by decide) (by decide) (by decide) hroom b.toNat
      have hlow : lowBytes 1 b.toNat = b.toNat := Nat.mod_eq_of_lt b.toNat_lt
      rw [hlow, ← List.map_singleton (f := UInt8.toNat), ← List.map_append] at hput
      exact ⟨_, _, rfl, hput⟩

/-- Two bytes are read after the writer has gone. -/
theorem two_bytes_read : ∃ q, Queued q [1, 2] ∧ PipeReads (fun _ => 0) q [1, 2] 0 5 := by
  obtain ⟨q, hq⟩ := exists_queued [1, 2] (by decide)
  exact ⟨q, hq, (pipe_read_iff (fun _ => 0) hq 0 (by decide)).mpr (.inr (by decide))⟩

/-- A read of one byte stores two when the writer has gone. -/
theorem whole_queue_read : ¬∀ (stack : Nat → UInt32) (q : IoQueue) (content : List UInt8)
    (writeReference : Int) (count : UInt32), Queued q content → count ≠ 0 →
      PipeReads stack q content writeReference count := by
  intro h
  obtain ⟨q, hq⟩ := exists_queued [1, 2] (by decide)
  obtain ⟨c, hloop, hlength, -⟩ := get_bytes_oldest (fun _ => 0) 1 hq (Nat.le_refl _)
  have hread : pipeRead (fun _ => 0) q 0 1 = some c := by
    rw [pipeRead, if_neg (by decide), hq.size, hloop]
  have hle := ((h (fun _ => 0) q [1, 2] 0 1 hq (by decide)).bytes c hread).atMost
  rw [hlength] at hle
  exact absurd hle (by decide)

end XBook.Pipes
