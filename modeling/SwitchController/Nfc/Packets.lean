import SwitchController.Nfc.Mcu

/-! # The packets of the MCU

Every packet the MCU queues is a body padded with zeros to 312 bytes and closed
by its checksum. The builders of `nfc_mcu.c` are shown to append exactly one
such packet, or to do nothing on a full ring; nothing after this module looks at
slots, offsets or `memcpy` again.
-/

namespace SwitchController.Nfc

open Memory

/-! ## Packet forms -/

/-- A body padded to 312 bytes and followed by its checksum. -/
def sealPacket (body : Bytes) : Bytes :=
  let p := body ++ zeros (312 - body.length)
  p ++ [nfcCrc8 p]

/-- Tag bytes 0..2 and 4..6. -/
def uidBytes (tag : Bytes) : Bytes := tag.take 3 ++ (tag.drop 4).take 4

inductive Packet
  | status (power : UInt8)
  | poll (state : UInt8)
  | found (state : UInt8) (tag : Bytes)
  | first (tag : Bytes)
  | second (tag : Bytes)
  | trailer (tag : Bytes)
deriving DecidableEq, Repr

def pollHeader : Bytes := [0x2a, 0, 5, 0, 0, 9, 0x31]
def foundHeader : Bytes := [0, 0, 0, 1, 1, 2, 0, 7]

def Packet.body : Packet → Bytes
  | .status power => if power = 0 then [0xff] else [1, 0, 0, 0, 8, 0, 0x1b, power]
  | .poll state => pollHeader ++ [state]
  | .found state tag => pollHeader ++ [state] ++ foundHeader ++ uidBytes tag
  | .first tag => readWire ++ uidBytes tag ++ readMeta ++ tag.take 245
  | .second tag => readSecond ++ (tag.drop 245).take 295
  | .trailer tag => readTail ++ uidBytes tag

def Packet.encode (p : Packet) : Bytes := sealPacket p.body

/-- An idle packet answers a peek at an empty queue. -/
def Packet.idle : Packet := .status 0

theorem uidBytes_length_le (tag : Bytes) : (uidBytes tag).length ≤ 7 := by
  simp only [uidBytes, List.length_append, List.length_take, List.length_drop]
  omega

theorem uidBytes_length {tag : Bytes} (h : tag.length = tagSize) :
    (uidBytes tag).length = 7 := by
  simp only [uidBytes, List.length_append, List.length_take, List.length_drop, h, tagSize]
  omega

theorem body_length_le (p : Packet) : p.body.length ≤ 312 := by
  cases p with
  | status power => simp only [Packet.body]; split <;> simp
  | poll state => simp [Packet.body, pollHeader]
  | found state tag =>
      have hu := uidBytes_length_le tag
      simp only [Packet.body, pollHeader, foundHeader, List.length_append, List.length_cons,
        List.length_nil]
      omega
  | first tag =>
      have hu := uidBytes_length_le tag
      simp only [Packet.body, readWire, readMeta, List.length_append, List.length_cons,
        List.length_nil, List.length_take]
      omega
  | second tag =>
      simp only [Packet.body, readSecond, List.length_append, List.length_cons,
        List.length_nil, List.length_take]
      omega
  | trailer tag =>
      have hu := uidBytes_length_le tag
      simp only [Packet.body, readTail, List.length_append, List.length_cons, List.length_nil]
      omega

theorem sealPacket_length {body : Bytes} (h : body.length ≤ 312) :
    (sealPacket body).length = mcuSize := by
  simp only [sealPacket, List.length_append, zeros_length, List.length_singleton, mcuSize]
  omega

theorem encode_length (p : Packet) : p.encode.length = mcuSize :=
  sealPacket_length (body_length_le p)

/-- The last byte is the checksum of all bytes before it. -/
theorem sealPacket_crc {body : Bytes} (h : body.length ≤ 312) :
    (sealPacket body)[312]? = some (nfcCrc8 ((sealPacket body).take 312)) := by
  have hlen : (body ++ zeros (312 - body.length)).length = 312 := by
    simp only [List.length_append, zeros_length]
    omega
  simp only [sealPacket]
  rw [List.getElem?_append_right (by omega), hlen, List.take_left' hlen]
  rfl

/-- The bytes of the body are where the builder put them. -/
theorem sealPacket_take {body : Bytes} {n : Nat} (hn : n ≤ body.length) :
    (sealPacket body).take n = body.take n := by
  simp only [sealPacket, List.append_assoc]
  rw [List.take_append_of_le_length hn]

theorem sealPacket_getElem? {body : Bytes} {i : Nat} (hi : i < body.length) :
    (sealPacket body)[i]? = body[i]? := by
  simp only [sealPacket, List.append_assoc]
  rw [List.getElem?_append_left hi]

/-- `finish` on a cleared buffer that holds the body seals it. -/
theorem finish_body {body : Bytes} (h : body.length ≤ 312) {n : Nat}
    (hn : n = 313 - body.length) : finish (body ++ zeros n) = sealPacket body := by
  have hsplit : body ++ zeros n = body ++ zeros (312 - body.length) ++ zeros 1 := by
    rw [List.append_assoc, zeros_append]
    congr 2
    omega
  have hlen : (body ++ zeros (312 - body.length)).length = 312 := by
    simp only [List.length_append, zeros_length]
    omega
  unfold finish
  rw [hsplit, List.take_left' hlen, set_zeros _ 1 _ hlen.symm (by omega)]
  simp [sealPacket]

/-! ## Slots -/

def Mcu.pending (m : Mcu) : List Bytes := m.queue.contents queueSize

/-- Append a finished packet to the queue. -/
def Mcu.enqueue (m : Mcu) (p : Bytes) : Mcu := { m with queue := m.queue.push queueSize p }

theorem reserve_full {m : Mcu} (h : m.queue.count = queueSize) : reserve m = none := by
  simp [reserve, h]

@[simp] theorem enqueue_count (m : Mcu) (p : Bytes) :
    (m.enqueue p).queue.count = m.queue.count + 1 := rfl

@[simp] theorem enqueue_tag (m : Mcu) (p : Bytes) : (m.enqueue p).tag = m.tag := rfl

@[simp] theorem flush_tag (m : Mcu) : (flush m).tag = m.tag := rfl

@[simp] theorem flush_count (m : Mcu) : (flush m).queue.count = 0 := rfl

theorem uid_congr {m n : Mcu} (h : m.tag = n.tag) (p : Bytes) (offset : Nat) :
    uid m p offset = uid n p offset := by
  simp [uid, h]

/-- A reservation on a ring that is not full, with its slot named. -/
theorem reserve_some {m : Mcu} (h : m.queue.count ≠ queueSize) :
    reserve m = some (m.queue.index queueSize m.queue.count, m.enqueue (zeros mcuSize)) := by
  simp only [reserve, if_neg h]
  rfl

theorem enqueue_slot (m : Mcu) (p : Bytes) :
    (m.enqueue p).slot (m.queue.index queueSize m.queue.count) = p := by
  simp [Mcu.slot, Mcu.enqueue, RingBuffer.push, RingBuffer.store]

theorem enqueue_store (m : Mcu) (p q : Bytes) :
    (m.enqueue p).store (m.queue.index queueSize m.queue.count) q = m.enqueue q := by
  simp [Mcu.store, Mcu.enqueue, RingBuffer.push_store]

theorem enqueue_pending {m : Mcu} (p : Bytes) (h : m.queue.count < queueSize) :
    (m.enqueue p).pending = m.pending ++ [p] := RingBuffer.push_contents m.queue p h

@[simp] theorem flush_pending (m : Mcu) : (flush m).pending = [] :=
  RingBuffer.clear_contents m.queue

/-! ## What each builder queues -/

theorem status_body (power : UInt8) :
    finish (if power = 0 then (zeros mcuSize).set 0 0xff
      else (memcpy (zeros mcuSize) 0 [1, 0, 0, 0, 8, 0, 0x1b]).set 7 power) =
      (Packet.status power).encode := by
  by_cases h : power = 0
  · have hset : (zeros mcuSize).set 0 0xff = [0xff] ++ zeros 312 := rfl
    rw [if_pos h, hset, finish_body]
    · simp [Packet.encode, Packet.body, h]
    · decide
    · rfl
  · rw [if_neg h, memcpy_zeros_start, set_zeros, finish_body]
    · simp [Packet.encode, Packet.body, h]
    · simp
    · simp [mcuSize]
    · rfl
    · decide

theorem status_full {m : Mcu} (h : m.queue.count = queueSize) : status m = m := by
  simp [status, reserve_full h]

theorem status_eq {m : Mcu} (h : m.queue.count ≠ queueSize) :
    status m = m.enqueue (Packet.status m.powerState).encode := by
  have hpower : (m.enqueue (zeros mcuSize)).powerState = m.powerState := rfl
  simp only [status, reserve_some h, enqueue_slot, hpower, status_body, enqueue_store]

/-- The announcement `poll` makes before it fills the packet. -/
def Mcu.announce (m : Mcu) : Mcu :=
  if m.present = true ∧ m.pollState ≠ 0 then
    { m with pollState := if m.seen then 9 else 1, seen := true }
  else m

/-- The packet `poll` queues: the tag is described exactly when it is announced. -/
def Mcu.pollPacket (m : Mcu) : Packet :=
  if m.present = true ∧ m.pollState ≠ 0 then .found (if m.seen then 9 else 1) m.tag
  else .poll m.pollState

theorem empty_body (state : UInt8) :
    finish ((memcpy (zeros mcuSize) 0 pollHeader).set 7 state) = (Packet.poll state).encode := by
  rw [memcpy_zeros_start, set_zeros, finish_body]
  · rfl
  · simp [pollHeader]
  · simp [mcuSize, pollHeader]
  · rfl
  · decide

theorem found_body {m : Mcu} (state : UInt8) (htag : m.tag.length = tagSize) :
    finish ((uid m (memcpy (memcpy (zeros mcuSize) 0 pollHeader) 8 foundHeader) 16).set 7 state) =
      (Packet.found state m.tag).encode := by
  have h3 : (m.tag.take 3).length = 3 := by simp [htag, tagSize]
  have h4 : ((m.tag.drop 4).take 4).length = 4 := by simp [htag, tagSize]
  have hhead : memcpy (zeros mcuSize) 0 pollHeader = pollHeader ++ [0] ++ zeros 305 := by
    rw [memcpy_zeros_start]
    rfl
  have hset : (uid m (memcpy (memcpy (zeros mcuSize) 0 pollHeader) 8 foundHeader) 16).set 7 state =
      (Packet.found state m.tag).body ++ zeros 290 := by
    unfold uid
    rw [hhead, memcpy_zeros, memcpy_zeros, memcpy_zeros, h3, h4]
    · simp [pollHeader, foundHeader, Packet.body, uidBytes]
    all_goals simp [pollHeader, foundHeader, h3]
  rw [hset, finish_body (body_length_le _)]
  · rfl
  · simp [Packet.body, pollHeader, foundHeader, uidBytes_length htag]

theorem poll_full {m : Mcu} (h : m.queue.count = queueSize) : poll m = m := by
  simp [poll, reserve_full h]

theorem poll_eq {m : Mcu} (htag : m.tag.length = tagSize) (h : m.queue.count ≠ queueSize) :
    poll m = m.announce.enqueue m.pollPacket.encode := by
  have hhead : ([0x2a, 0, 5, 0, 0, 9, 0x31] : Bytes) = pollHeader := rfl
  have hfound : ([0, 0, 0, 1, 1, 2, 0, 7] : Bytes) = foundHeader := rfl
  simp only [poll, reserve_some h, enqueue_slot, hhead, hfound]
  by_cases hf : m.present = true ∧ m.pollState ≠ 0
  · have hc : (m.enqueue (zeros mcuSize)).present = true ∧
        (m.enqueue (zeros mcuSize)).pollState ≠ 0 := hf
    simp only [if_pos hc, Mcu.announce, Mcu.pollPacket, if_pos hf]
    rw [uid_congr (n := m), found_body _ htag]
    · simp only [Mcu.store, Mcu.enqueue, RingBuffer.push_store]
      rfl
    · rfl
  · have hc : ¬ ((m.enqueue (zeros mcuSize)).present = true ∧
        (m.enqueue (zeros mcuSize)).pollState ≠ 0) := hf
    simp only [if_neg hc, Mcu.announce, Mcu.pollPacket, if_neg hf, enqueue_store, empty_body]
    rfl

/-! ## The three packets of a read -/

theorem first_body {m : Mcu} (htag : m.tag.length = tagSize) :
    finish (memcpy (memcpy (uid m (memcpy (zeros mcuSize) 0 readWire) readWire.length)
      (readWire.length + 7) readMeta) (readWire.length + 7 + readMeta.length)
      (m.tag.take 245)) = (Packet.first m.tag).encode := by
  have h3 : (m.tag.take 3).length = 3 := by simp [htag, tagSize]
  have h4 : ((m.tag.drop 4).take 4).length = 4 := by simp [htag, tagSize]
  have h245 : (m.tag.take 245).length = 245 := by simp [htag, tagSize]
  unfold uid
  rw [memcpy_zeros_start, memcpy_zeros, memcpy_zeros, memcpy_zeros, memcpy_zeros, h3, h4, h245]
  · have hbody : readWire ++ m.tag.take 3 ++ (m.tag.drop 4).take 4 ++ readMeta ++ m.tag.take 245 =
        (Packet.first m.tag).body := by simp [Packet.body, uidBytes]
    rw [hbody, finish_body (body_length_le _)]
    · rfl
    · simp [Packet.body, uidBytes_length htag, h245, readWire, readMeta, mcuSize]
  all_goals simp [readWire, readMeta, h3, h4]

theorem second_body {tag : Bytes} (htag : tag.length = tagSize) :
    finish (memcpy (memcpy (zeros mcuSize) 0 readSecond) 7 ((tag.drop 245).take 295)) =
      (Packet.second tag).encode := by
  have h295 : ((tag.drop 245).take 295).length = 295 := by simp [htag, tagSize]
  have hlen : (readSecond ++ (tag.drop 245).take 295).length = 302 := by
    rw [List.length_append, h295]
    rfl
  have hfit : (readSecond ++ (tag.drop 245).take 295).length ≤ 312 := by omega
  have hrest : mcuSize - readSecond.length - 295 =
      313 - (readSecond ++ (tag.drop 245).take 295).length := by
    rw [hlen]
    rfl
  have hstart : 7 = readSecond.length := rfl
  rw [memcpy_zeros_start, memcpy_zeros _ _ _ hstart, h295, finish_body hfit hrest]
  rfl

theorem trailer_body {m : Mcu} (htag : m.tag.length = tagSize) :
    finish (uid m (memcpy (zeros mcuSize) 0 readTail) readTail.length) =
      (Packet.trailer m.tag).encode := by
  have h3 : (m.tag.take 3).length = 3 := by simp [htag, tagSize]
  have h4 : ((m.tag.drop 4).take 4).length = 4 := by simp [htag, tagSize]
  unfold uid
  rw [memcpy_zeros_start, memcpy_zeros, memcpy_zeros, h3, h4]
  · have hbody : readTail ++ m.tag.take 3 ++ (m.tag.drop 4).take 4 =
        (Packet.trailer m.tag).body := by simp [Packet.body, uidBytes]
    rw [hbody, finish_body (body_length_le _)]
    · rfl
    · simp [Packet.body, uidBytes_length htag, readTail, mcuSize]
  all_goals simp [readTail, h3]

/-- The packets a read leaves in the queue, oldest first. -/
def readPackets (tag : Bytes) : List Packet := [.first tag, .second tag, .trailer tag]

/-- The state after an accepted read. -/
def Mcu.afterRead (m : Mcu) : Mcu :=
  (((flush m).enqueue (Packet.first m.tag).encode).enqueue
    (Packet.second m.tag).encode).enqueue (Packet.trailer m.tag).encode

/-- None of the three reservations of a read fails: the queue was flushed. -/
theorem readTag_eq {m : Mcu} (htag : m.tag.length = tagSize) : readTag m = some m.afterRead := by
  have h0 : (flush m).queue.count ≠ queueSize := by simp [queueSize]
  have h1 (p : Bytes) : ((flush m).enqueue p).queue.count ≠ queueSize := by simp [queueSize]
  have h2 (p q : Bytes) : (((flush m).enqueue p).enqueue q).queue.count ≠ queueSize := by
    simp [queueSize]
  have hfirst (p : Bytes) : uid ((flush m).enqueue p) = uid m := by
    funext q offset
    exact uid_congr rfl q offset
  have htrailer (p q r : Bytes) : uid ((((flush m).enqueue p).enqueue q).enqueue r) = uid m := by
    funext q offset
    exact uid_congr rfl q offset
  simp only [readTag, reserve_some h0, Option.bind_eq_bind, Option.bind_some, enqueue_slot,
    enqueue_store, hfirst, enqueue_tag, flush_tag, first_body htag, reserve_some (h1 _),
    second_body htag, reserve_some (h2 _ _), htrailer, trailer_body htag]
  rfl

end SwitchController.Nfc
