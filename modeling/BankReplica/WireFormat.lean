import BankReplica.State
import BankReplica.Library.ByteOrder

/-!
# Packets on the wire

`struct Packet` is sent as it lies in memory: the type in the first two bytes, two bytes
of padding, then the union. Requests, acknowledgements and election messages pass their
numbers through `htonl` and `ntohl`. The replication packets copy theirs raw, and so does
an acknowledgement its balance, so between hosts of different byte orders a raw word
arrives with its bytes reversed.
-/

namespace BankReplica

open ByteOrder

/-- `Transaction` as it lies in memory. -/
structure TransactionData where
  id : Word
  sourceIp : IpString
  destIp : IpString
  value : Word
  clientSeqn : Word
deriving DecidableEq

/-- The packets with a payload that is read, every `int` and `float` as its 32 bits. -/
inductive Payload
  | transactionReq (destAddr : InAddr) (value seqn : Word)
  | transactionAck (seqn newBalance status lastReq : Word)
  | addClientUpdate (ip : IpString) (balance lastRequest : Word)
  | newPrimaryAnnouncement (value : Word)
  | stateUpdate (transaction : TransactionData) (sourceIp : IpString) (sourceBalance : Word)
      (destIp : IpString) (destBalance : Word)
  | addHistoryEntry (historyEntry : TransactionData)
  | election (value : Word)
  | electionAnswer (value : Word)
deriving DecidableEq

/-! ## Fields -/

/-- `htonl`. -/
def htonl (o : Endian) (w : Word) : Word := BitVec.ofNat 32 (o.hton 4 w.toNat)

/-- `ntohl`. -/
def ntohl (o : Endian) (w : Word) : Word := BitVec.ofNat 32 (o.hton 4 w.toNat)

/-- A word with its bytes reversed. -/
def swapWord (w : Word) : Word := BitVec.ofNat 32 (swap 4 w.toNat)

/-- Assign a 32-bit field. -/
def storeWord (o : Endian) (m : Memory) (off : ℕ) (w : Word) : Memory := store m off (o.bytes 4 w.toNat)

/-- Read a 32-bit field. -/
def loadWord (o : Endian) (m : Memory) (off : ℕ) : Word := BitVec.ofNat 32 (o.value (load m off 4))

/-- Assign the type, through `htons`. -/
def storeType (o : Endian) (m : Memory) (type : ℕ) : Memory := store m 0 (o.bytes 2 (o.hton 2 type))

/-- Read the type, through `ntohs`. -/
def loadType (o : Endian) (m : Memory) : ℕ := o.hton 2 (o.value (load m 0 2))

/-- An address buffer after `strncpy` and the store of the final NUL. -/
def ipBuffer (ip : IpString) : List UInt8 := ip.bytes ++ List.replicate (inetAddrStrLen - ip.bytes.length) 0

/-- Copy a text into an address buffer. -/
def storeText (m : Memory) (off : ℕ) (ip : IpString) : Memory := store m off (ipBuffer ip)

/-- Read the text in an address buffer; every encoder ends it with a NUL. -/
def loadText (m : Memory) (off : ℕ) : IpString := strncpyIp (load m off inetAddrStrLen)

/-- The octets of an address in memory order. -/
def InAddr.octets (addr : InAddr) : List UInt8 := [addr.a, addr.b, addr.c, addr.d]

/-- The address whose octets lie in memory. -/
def InAddr.ofOctets : List UInt8 → InAddr
  | [a, b, c, d] => ⟨a, b, c, d⟩
  | _ => ⟨0, 0, 0, 0⟩

/-- `inet_pton` writes the octets of an address. -/
def storeAddr (m : Memory) (off : ℕ) (addr : InAddr) : Memory := store m off addr.octets

/-- `dest_addr` is read as a `uint32_t` and stored as one in a `struct in_addr`. -/
def loadAddr (o : Endian) (m : Memory) (off : ℕ) : InAddr := .ofOctets (o.bytes 4 (o.value (load m off 4)))

/-- Assign a `Transaction`. -/
def storeTransaction (o : Endian) (m : Memory) (off : ℕ) (tx : TransactionData) : Memory :=
  let m := storeWord o m off tx.id
  let m := storeText m (off + 4) tx.sourceIp
  let m := storeText m (off + 20) tx.destIp
  let m := storeWord o m (off + 36) tx.value
  storeWord o m (off + 40) tx.clientSeqn

/-- Read a `Transaction`. -/
def loadTransaction (o : Endian) (m : Memory) (off : ℕ) : TransactionData where
  id := loadWord o m off
  sourceIp := loadText m (off + 4)
  destIp := loadText m (off + 20)
  value := loadWord o m (off + 36)
  clientSeqn := loadWord o m (off + 40)

/-! ## Packets -/

/-- The memory of the packet the sending code fills in, over whatever it held before. -/
def encode (o : Endian) (m : Memory) : Payload → Memory
  -- `sendRequestPacket`
  | .transactionReq destAddr value seqn =>
    let m := storeType o m 2
    let m := storeWord o m 8 (htonl o value)
    let m := storeWord o m 12 (htonl o seqn)
    storeAddr m 4 destAddr
  -- `handleTransactionRequest`
  | .transactionAck seqn newBalance status lastReq =>
    let m := storeType o m 3
    let m := storeWord o m 4 (htonl o seqn)
    let m := storeWord o m 12 (htonl o status)
    let m := storeWord o m 8 newBalance
    storeWord o m 16 (htonl o lastReq)
  -- `Server::propagateClientAddition` and `Server::registerBackup`
  | .addClientUpdate ip balance lastRequest =>
    let m := storeType o m 5
    let m := storeText m 4 ip
    let m := storeWord o m 20 balance
    storeWord o m 24 lastRequest
  -- `Server::announceNewPrimary`
  | .newPrimaryAnnouncement value => storeWord o (storeType o m 7) 8 (htonl o value)
  -- `Server::propagateTransaction`
  | .stateUpdate transaction sourceIp sourceBalance destIp destBalance =>
    let m := storeType o m 8
    let m := storeTransaction o m 4 transaction
    let m := storeText m 48 sourceIp
    let m := storeWord o m 64 sourceBalance
    let m := storeText m 68 destIp
    storeWord o m 84 destBalance
  -- `Server::registerBackup`
  | .addHistoryEntry historyEntry => storeTransaction o (storeType o m 10) 4 historyEntry
  -- `Server::startElection`
  | .election value => storeWord o (storeType o m 12) 8 (htonl o value)
  -- `Server::handleElectionPacket`
  | .electionAnswer value => storeWord o (storeType o m 13) 8 (htonl o value)

/-- What the receiving code reads in the memory of a packet, by its type. -/
def decode (o : Endian) (m : Memory) : Option Payload :=
  match loadType o m with
  -- `handleTransactionRequest`
  | 2 => some (.transactionReq (loadAddr o m 4) (ntohl o (loadWord o m 8)) (ntohl o (loadWord o m 12)))
  -- `receiveResponse` and `ClientInterface::processCommand`
  | 3 => some (.transactionAck (ntohl o (loadWord o m 4)) (loadWord o m 8) (ntohl o (loadWord o m 12))
      (ntohl o (loadWord o m 16)))
  -- `Server::handleClientUpdate`
  | 5 => some (.addClientUpdate (loadText m 4) (loadWord o m 20) (loadWord o m 24))
  -- `Server::handleNewPrimaryAnnouncementPacket`
  | 7 => some (.newPrimaryAnnouncement (ntohl o (loadWord o m 8)))
  -- `Server::handleStateUpdate`
  | 8 => some (.stateUpdate (loadTransaction o m 4) (loadText m 48) (loadWord o m 64) (loadText m 68)
      (loadWord o m 84))
  -- `Server::handleHistoryEntry`
  | 10 => some (.addHistoryEntry (loadTransaction o m 4))
  -- `Server::handleElectionPacket`
  | 12 => some (.election (ntohl o (loadWord o m 8)))
  -- `Server::handleElectionAnswerPacket`
  | 13 => some (.electionAnswer (ntohl o (loadWord o m 8)))
  | _ => none

/-! ## What arrives -/

/-- A raw word as the receiver reads it. -/
def transmit (s r : Endian) (w : Word) : Word := if s = r then w else swapWord w

/-- A raw `Transaction` as the receiver reads it. -/
def TransactionData.transmit (s r : Endian) (tx : TransactionData) : TransactionData :=
  { tx with
    id := BankReplica.transmit s r tx.id
    value := BankReplica.transmit s r tx.value
    clientSeqn := BankReplica.transmit s r tx.clientSeqn }

/-- A payload as the receiver decodes it. -/
def Payload.received (s r : Endian) : Payload → Payload
  | .transactionAck seqn newBalance status lastReq => .transactionAck seqn (transmit s r newBalance) status lastReq
  | .addClientUpdate ip balance lastRequest => .addClientUpdate ip (transmit s r balance) (transmit s r lastRequest)
  | .stateUpdate transaction sourceIp sourceBalance destIp destBalance =>
    .stateUpdate (transaction.transmit s r) sourceIp (transmit s r sourceBalance) destIp (transmit s r destBalance)
  | .addHistoryEntry historyEntry => .addHistoryEntry (historyEntry.transmit s r)
  | payload => payload

/-- The words of a raw `Transaction`. -/
def TransactionData.rawWords (tx : TransactionData) : List Word := [tx.id, tx.value, tx.clientSeqn]

/-- The words of a payload that do not pass through `htonl`. -/
def Payload.rawWords : Payload → List Word
  | .transactionAck _ newBalance _ _ => [newBalance]
  | .addClientUpdate _ balance lastRequest => [balance, lastRequest]
  | .stateUpdate transaction _ sourceBalance _ destBalance => transaction.rawWords ++ [sourceBalance, destBalance]
  | .addHistoryEntry historyEntry => historyEntry.rawWords
  | _ => []

@[simp] theorem length_ipBuffer (ip : IpString) : (ipBuffer ip).length = 16 := by
  have hfits := ip.fits.1
  simp only [ipBuffer, List.length_append, List.length_replicate, inetAddrStrLen] at hfits ⊢
  omega

@[simp] theorem InAddr.length_octets (addr : InAddr) : addr.octets.length = 4 := rfl

/-- Copying the text out of a buffer it was copied into is lossless. -/
theorem strncpyIp_ipBuffer (ip : IpString) : strncpyIp (ipBuffer ip) = ip := by
  have hwhole : (ipBuffer ip).takeWhile (· ≠ 0) = ip.bytes := by
    rw [ipBuffer, List.takeWhile_append_of_pos ip.ne_nul, List.takeWhile_replicate]
    simp
  simp only [strncpyIp, hwhole, IpString.take_bytes]

/-- A word of memory is below `256 ^ 4`. -/
theorem Word.toNat_lt_pow (w : Word) : w.toNat < 256 ^ 4 := w.isLt

/-- A raw word arrives as it is or reversed. -/
theorem word_transmit (s r : Endian) (w : Word) :
    BitVec.ofNat 32 (r.value (s.bytes 4 w.toNat)) = transmit s r w := by
  unfold transmit
  split
  · rename_i h
    rw [h, r.value_bytes (Word.toNat_lt_pow w), BitVec.ofNat_toNat, BitVec.setWidth_eq]
  · rename_i h
    rw [Endian.value_bytes_of_ne h]
    rfl

/-- A word passed through `htonl` and `ntohl` arrives as it is. -/
theorem word_network (s r : Endian) (w : Word) : ntohl r (transmit s r (htonl s w)) = w := by
  have hsent : (htonl s w).toNat = s.hton 4 w.toNat := by
    rw [htonl, BitVec.toNat_ofNat]
    exact Nat.mod_eq_of_lt (s.hton_lt (Word.toNat_lt_pow w))
  have hread : (BitVec.ofNat 32 (r.value (s.bytes 4 (s.hton 4 w.toNat)))).toNat =
      r.value (s.bytes 4 (s.hton 4 w.toNat)) := by
    rw [BitVec.toNat_ofNat]
    exact Nat.mod_eq_of_lt (r.value_lt (s.length_bytes 4 _))
  rw [← word_transmit, ntohl, hsent, hread, s.network_roundtrip r (Word.toNat_lt_pow w), BitVec.ofNat_toNat, BitVec.setWidth_eq]

/-! ## Fields that do not overlap -/

section Fields

variable {m : Memory} {off off' n k x : ℕ} {o : Endian} {ip : IpString} {addr : InAddr}

/-- A number is read where it was stored. -/
theorem load_store_bytes : load (store m off (o.bytes n x)) off n = o.bytes n x :=
  load_store m off (o.length_bytes n x)

/-- A number stored elsewhere is not read. -/
theorem load_store_bytes_of_disjoint (h : off' + n ≤ off ∨ off + k ≤ off') :
    load (store m off (o.bytes k x)) off' n = load m off' n :=
  load_store_of_disjoint m (by rwa [o.length_bytes])

/-- A text is read where it was copied. -/
theorem load_store_text : load (store m off (ipBuffer ip)) off 16 = ipBuffer ip :=
  load_store m off (length_ipBuffer ip)

/-- A text copied elsewhere is not read. -/
theorem load_store_text_of_disjoint (h : off' + n ≤ off ∨ off + 16 ≤ off') :
    load (store m off (ipBuffer ip)) off' n = load m off' n :=
  load_store_of_disjoint m (by rwa [length_ipBuffer])

/-- An address is read where it was written. -/
theorem load_store_octets : load (store m off addr.octets) off 4 = addr.octets :=
  load_store m off addr.length_octets

/-- An address written elsewhere is not read. -/
theorem load_store_octets_of_disjoint (h : off' + n ≤ off ∨ off + 4 ≤ off') :
    load (store m off addr.octets) off' n = load m off' n :=
  load_store_of_disjoint m (by rwa [addr.length_octets])

end Fields

/-- A `Transaction` is read back with its raw words transmitted. -/
theorem loadTransaction_storeTransaction (s r : Endian) (m : Memory) (off : ℕ) (tx : TransactionData) :
    loadTransaction r (storeTransaction s m off tx) off = tx.transmit s r := by
  simp (disch := omega) only [loadTransaction, storeTransaction, loadWord, storeWord, loadText, storeText,
    inetAddrStrLen, load_store_bytes, load_store_bytes_of_disjoint, load_store_text, load_store_text_of_disjoint,
    word_transmit, strncpyIp_ipBuffer, TransactionData.transmit]

/-- Assigning a `Transaction` leaves alone what lies before it. -/
theorem load_storeTransaction (o : Endian) (m : Memory) {off off' n : ℕ} (tx : TransactionData) (h : off' + n ≤ off) :
    load (storeTransaction o m off tx) off' n = load m off' n := by
  simp (disch := omega) only [storeTransaction, storeWord, storeText, load_store_bytes_of_disjoint,
    load_store_text_of_disjoint]

/-- A `Transaction` is read where a later store does not reach. -/
theorem loadTransaction_store (o : Endian) (m : Memory) {off off' : ℕ} {bs : List UInt8} (h : off + 44 ≤ off') :
    loadTransaction o (store m off' bs) off = loadTransaction o m off := by
  simp (disch := omega) only [loadTransaction, loadWord, loadText, inetAddrStrLen, load_store_of_disjoint]

/-! ## Round trips -/

/-- The code of a payload's packet type. -/
def Payload.type : Payload → ℕ
  | .transactionReq .. => 2
  | .transactionAck .. => 3
  | .addClientUpdate .. => 5
  | .newPrimaryAnnouncement _ => 7
  | .stateUpdate .. => 8
  | .addHistoryEntry _ => 10
  | .election _ => 12
  | .electionAnswer _ => 13

/-- The receiver reads the type that was sent. -/
theorem loadType_encode (s r : Endian) (m : Memory) (payload : Payload) :
    loadType r (encode s m payload) = payload.type := by
  have hread : ∀ type, type < 256 ^ 2 → r.hton 2 (r.value (s.bytes 2 (s.hton 2 type))) = type := fun type htype =>
    s.network_roundtrip r htype
  cases payload <;>
    simp (disch := omega) only [loadType, encode, storeType, storeWord, storeText, storeAddr, load_storeTransaction,
      load_store_bytes, load_store_bytes_of_disjoint, load_store_text_of_disjoint, load_store_octets_of_disjoint,
      hread, Payload.type]

/-- The receiver decodes what was sent, with its raw words transmitted. -/
theorem decode_encode (s r : Endian) (m : Memory) (payload : Payload) :
    decode r (encode s m payload) = some (payload.received s r) := by
  rw [decode, loadType_encode]
  cases payload with
  | transactionReq destAddr value seqn =>
    have haddr : r.bytes 4 (r.value destAddr.octets) = destAddr.octets := r.bytes_value destAddr.length_octets
    simp (disch := omega) only [Payload.type, encode, loadWord, storeWord, loadAddr, storeAddr, load_store_bytes,
      load_store_bytes_of_disjoint, load_store_octets, load_store_octets_of_disjoint, word_transmit, word_network,
      haddr]
    rfl
  | transactionAck seqn newBalance status lastReq =>
    simp (disch := omega) only [Payload.type, encode, loadWord, storeWord, load_store_bytes,
      load_store_bytes_of_disjoint, word_transmit, word_network, Payload.received]
  | addClientUpdate ip balance lastRequest =>
    simp (disch := omega) only [Payload.type, encode, loadWord, storeWord, loadText, storeText, inetAddrStrLen,
      load_store_bytes, load_store_bytes_of_disjoint, load_store_text, word_transmit, strncpyIp_ipBuffer,
      Payload.received]
  | stateUpdate transaction sourceIp sourceBalance destIp destBalance =>
    simp (disch := omega) only [Payload.type, encode, loadWord, storeWord, loadText, storeText, inetAddrStrLen,
      load_store_bytes, load_store_bytes_of_disjoint, load_store_text, load_store_text_of_disjoint,
      loadTransaction_store, loadTransaction_storeTransaction, word_transmit, strncpyIp_ipBuffer, Payload.received]
  | addHistoryEntry historyEntry =>
    simp only [Payload.type, encode, loadTransaction_storeTransaction, Payload.received]
  | newPrimaryAnnouncement value | election value | electionAnswer value =>
    simp only [Payload.type, encode, loadWord, storeWord, load_store_bytes, word_transmit, word_network, Payload.received]

/-- A raw word is decoded as sent exactly if the orders agree or it reads the same reversed. -/
theorem transmit_eq_self {s r : Endian} {w : Word} : transmit s r w = w ↔ s = r ∨ swapWord w = w := by
  unfold transmit
  split
  · exact iff_of_true rfl (.inl ‹_›)
  · simp only [‹¬ s = r›, false_or]

/-- So is a raw `Transaction`. -/
theorem TransactionData.transmit_eq_self {s r : Endian} {tx : TransactionData} :
    tx.transmit s r = tx ↔ s = r ∨ ∀ w ∈ tx.rawWords, swapWord w = w := by
  obtain ⟨id, sourceIp, destIp, value, clientSeqn⟩ := tx
  simp only [TransactionData.transmit, TransactionData.mk.injEq, BankReplica.transmit_eq_self, true_and,
    TransactionData.rawWords, List.forall_mem_cons, List.not_mem_nil, false_imp_iff, forall_const, and_true]
  tauto

/-- A payload is decoded as sent exactly if the orders agree or its raw words read the same
reversed. -/
theorem received_eq_self {s r : Endian} {payload : Payload} :
    payload.received s r = payload ↔ s = r ∨ ∀ w ∈ payload.rawWords, swapWord w = w := by
  cases payload <;>
    simp only [Payload.received, Payload.rawWords, transmit_eq_self, TransactionData.transmit_eq_self,
      Payload.transactionAck.injEq, Payload.addClientUpdate.injEq, Payload.stateUpdate.injEq,
      Payload.addHistoryEntry.injEq, List.forall_mem_cons, List.forall_mem_append, List.not_mem_nil, false_imp_iff,
      forall_const, and_true, true_and, or_true] <;>
    tauto

/-- For every payload, every pair of byte orders and whatever was in the packet before, the
receiving code reads what the sending code wrote exactly if the hosts have the same byte
order or every word that does not pass through `htonl` reads the same reversed. -/
theorem wire_roundtrip_iff_same_order (s r : Endian) (m : Memory) (payload : Payload) :
    decode r (encode s m payload) = some payload ↔ s = r ∨ ∀ w ∈ payload.rawWords, swapWord w = w := by
  rw [decode_encode, Option.some.injEq]
  exact received_eq_self

/-- The log entry that a `Transaction` in memory stands for. -/
def TransactionData.transaction (tx : TransactionData) : Transaction :=
  ⟨tx.id.toInt, tx.sourceIp, tx.destIp, tx.value.toInt, tx.clientSeqn.toInt⟩

/-- The packet of the message-level model that a payload stands for, where `float` is the
amount a pattern denotes. -/
def Payload.packet (float : Word → ℤ) : Payload → Packet
  | .transactionReq destAddr value seqn => .transactionReq ⟨destAddr, value, seqn⟩
  | .transactionAck seqn newBalance status lastReq => .transactionAck ⟨seqn, float newBalance, status, lastReq⟩
  | .addClientUpdate ip balance lastRequest => .addClientUpdate ⟨ip, float balance, lastRequest.toInt⟩
  | .newPrimaryAnnouncement value => .newPrimaryAnnouncement value
  | .stateUpdate transaction sourceIp sourceBalance destIp destBalance =>
    .stateUpdate ⟨transaction.transaction, sourceIp, float sourceBalance, destIp, float destBalance⟩
  | .addHistoryEntry historyEntry => .addHistoryEntry historyEntry.transaction
  | .election value => .election value
  | .electionAnswer value => .electionAnswer value

/-- Between hosts of one byte order the packet that arrives is the one that was sent. -/
theorem packet_arrives_in_same_order (o : Endian) (float : Word → ℤ) (m : Memory) (payload : Payload) :
    (decode o (encode o m payload)).map (Payload.packet float) = some (payload.packet float) := by
  have hsame : payload.received o o = payload := received_eq_self.mpr (.inl rfl)
  rw [decode_encode, hsame, Option.map_some]

/-- The update for a client with a balance of 1000, the float `0x447a0000`, after its first request. -/
def firstClientUpdate : Payload := .addClientUpdate (inetNtop (testHost 21).sinAddr) 0x447a0000 1

/-- Between a little-endian primary and a big-endian backup both numbers arrive reversed. -/
theorem client_update_reversed_between_orders :
    decode .big (encode .little (fun _ => 0) firstClientUpdate) =
        some (.addClientUpdate (inetNtop (testHost 21).sinAddr) 0x00007a44 16777216) ∧
      decode .big (encode .little (fun _ => 0) firstClientUpdate) ≠ some firstClientUpdate := by
  decide +kernel

end BankReplica
