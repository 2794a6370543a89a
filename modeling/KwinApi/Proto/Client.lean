import KwinApi.Proto.RxBuffer
import KwinApi.Proto.TxBuffer

/-!
# The frame decoder

`Client` of `client.cpp`: a state machine that reads frames from a socket into the RX queue. A
header is read byte by byte into `msg_len_`, a legal payload straight into the RX buffer, an
oversized one into a scratch buffer. When the RX buffer cannot hold a frame whose header has been
read, the decoder pauses before the payload.

## The socket

`Peer` is the far end of the socket: the bytes the client sends, of which `consumed` have been
read. One `::read` takes one `ReadAnswer`: an error, or the delivery of some of the bytes asked
for. Bytes that are "not there yet" are an answer `EAGAIN`, so `inbox` can be the whole future
stream. A list of answers that is exhausted answers `EAGAIN`. `calls` records every `::read` with
the decoder state it was made from.

## Main definitions

* `KwinApi.Client` — the decoder state, with `make` and `rxResume`
* `KwinApi.Peer`, `Peer.sysRead` — the socket as `::read` sees it
* `KwinApi.Client.onBytes` — what one successful `::read` does to the decoder
* `KwinApi.Client.read` — one `Client::read`
-/

namespace KwinApi

/-- The stage of the decoder. -/
inductive RxState where
  | header
  | payload
  | discardOversized
  deriving DecidableEq, Repr

/-- The result of one `Client::read`. -/
inductive ReadResult where
  | progress
  | again
  | paused
  | eof
  | error
  deriving DecidableEq, Repr

/-- The bytes swallowed at a time from an oversized payload. -/
def kDiscardChunk : ℕ := 4096

/-- The decoder and the two queues of one client. -/
structure Client where
  fd : ℤ
  rxState : RxState
  msgLen : UInt32
  haveRead : UInt32
  rxPaused : Bool
  discardedFrames : ℕ
  rx : RxBuffer
  tx : TxBuffer

/-- The answer of the kernel to one `::read`: `deliver k` hands over `k + 1` bytes, or as many as
are there and asked for when these are fewer. -/
inductive ReadAnswer where
  | deliver (k : ℕ)
  | errno (e : Errno)
  deriving DecidableEq, Repr

/-- One `::read`: the decoder it was made from, the bytes asked for and the bytes received. -/
structure ReadCall where
  client : Client
  want : ℕ
  got : ℕ

/-- The far end of the socket. -/
structure Peer where
  inbox : List UInt8
  consumed : List UInt8
  closed : Bool
  calls : List ReadCall

/-- What `::read` returns. -/
inductive SysRead where
  | bytes (bs : List UInt8)
  | zero
  | errno (e : Errno)

namespace Peer

/-- `::read(fd, dst, want)`. It returns 0 for a request of no bytes and at the end of the
stream. -/
def sysRead (p : Peer) (want : ℕ) : ReadAnswer → SysRead
  | .errno e => .errno e
  | .deliver k =>
    if want = 0 then .zero
    else if p.inbox = [] then (if p.closed then .zero else .errno .EAGAIN)
    else .bytes (p.inbox.take (min (k + 1) want))

/-- Record a `::read` that returned `bs`. -/
def record (p : Peer) (c : Client) (want : ℕ) (bs : List UInt8) : Peer :=
  { p with
    inbox := p.inbox.drop bs.length
    consumed := p.consumed ++ bs
    calls := p.calls ++ [⟨c, want, bs.length⟩] }

end Peer

/-- How one turn of the loop of `Client::read` ends. -/
inductive Turn where
  | loop (c : Client)
  | ret (r : ReadResult) (c : Client)

/-- The decoder a turn leaves. -/
def Turn.client : Turn → Client
  | .loop c => c
  | .ret _ c => c

/-- The outcome of one `Client::read`: its result, the decoder, the socket, and the answers of the
kernel it did not need. -/
structure ReadOut where
  result : ReadResult
  client : Client
  peer : Peer
  answers : List ReadAnswer

namespace Client

/-- The constructor. A capacity of 0 stands for the default. -/
def make (fd : ℤ) (rxCap txCap : ℕ) : Except String Client := do
  let rx ← RxBuffer.make (if rxCap = 0 then kDefaultBufferCap else rxCap)
  let tx ← TxBuffer.make (if txCap = 0 then kDefaultBufferCap else txCap)
  return { fd, rxState := .header, msgLen := 0, haveRead := 0, rxPaused := false,
           discardedFrames := 0, rx, tx }

/-- What the constructor makes. -/
theorem eq_of_make {fd : ℤ} {rxCap txCap : ℕ} {c : Client} (h : make fd rxCap txCap = .ok c) :
    ∃ rx tx, RxBuffer.make (if rxCap = 0 then kDefaultBufferCap else rxCap) = .ok rx ∧
      TxBuffer.make (if txCap = 0 then kDefaultBufferCap else txCap) = .ok tx ∧
      c = ⟨fd, .header, 0, 0, false, 0, rx, tx⟩ := by
  rw [make] at h
  cases hrx : RxBuffer.make (if rxCap = 0 then kDefaultBufferCap else rxCap) with
  | error e => rw [hrx] at h; cases h
  | ok rx =>
    cases htx : TxBuffer.make (if txCap = 0 then kDefaultBufferCap else txCap) with
    | error e => rw [hrx, htx] at h; cases h
    | ok tx =>
      rw [hrx, htx] at h
      cases h
      exact ⟨rx, tx, rfl, rfl, rfl⟩

/-- Clear the pause of a full RX buffer. -/
def rxResume (c : Client) : Client := { c with rxPaused := false }

/-- `Client::push`. -/
def push (bo : ByteOrder) (c : Client) (msg : List UInt8) : Except Errno Unit × Client :=
  if c.fd < 0 then (.error .ENOTCONN, c)
  else
    let r := c.tx.push bo msg
    (r.1, { c with tx := r.2 })

/-- `Client::flush`. -/
def flush (c : Client) (answers : List SendAnswer) : Except Errno ℕ × Client :=
  if c.fd < 0 then (.error .ENOTCONN, c)
  else
    let r := c.tx.flush answers
    (r.1, { c with tx := r.2.1 })

/-- The bytes the current stage asks `::read` for. -/
def want (c : Client) : ℕ :=
  match c.rxState with
  | .header => kHeaderLen - c.haveRead.toNat
  | .payload => (c.msgLen - c.haveRead).toNat
  | .discardOversized => min (c.msgLen - c.haveRead).toNat kDiscardChunk

/-- The destination of `::read`: in the payload stage it is the tail of the RX buffer. -/
def offer (c : Client) : Client :=
  match c.rxState with
  | .payload => { c with rx := c.rx.offerTail c.want }
  | _ => c

/-- The transition decision once the header is complete. -/
def headerDone (c : Client) : Turn :=
  if c.msgLen = 0 then
    .loop { c with discardedFrames := c.discardedFrames + 1, haveRead := 0 }
  else if c.msgLen.toNat > kMaxMessageLen then
    .ret .progress { c with rxState := .discardOversized, haveRead := 0 }
  else if c.rx.canFit c.msgLen.toNat then
    .ret .progress { c with rxState := .payload, haveRead := 0 }
  else .ret .paused { c with rxPaused := true }

/-- Header bytes go into the memory of `msg_len_`, behind the ones already there. -/
def storeHeader (bo : ByteOrder) (c : Client) (bs : List UInt8) : Client :=
  { c with
    msgLen := UInt32.ofNat (bo.decode
      (Region.blit (bo.encode kHeaderLen c.msgLen.toNat) c.haveRead.toNat bs))
    haveRead := c.haveRead + UInt32.ofNat bs.length }

/-- Payload bytes go to the tail of the RX buffer. -/
def storePayload (c : Client) (bs : List UInt8) : Client :=
  { c with
    rx := (c.rx.store c.rx.len bs).advance bs.length
    haveRead := c.haveRead + UInt32.ofNat bs.length }

/-- What the decoder does with the bytes of one successful `::read`. -/
def onBytes (bo : ByteOrder) (c : Client) (bs : List UInt8) : Turn :=
  match c.rxState with
  | .header =>
    let c := c.storeHeader bo bs
    if c.haveRead.toNat < kHeaderLen then .ret .progress c else c.headerDone
  | .payload =>
    let c := c.storePayload bs
    if c.haveRead = c.msgLen then
      .ret .progress { c with rx := c.rx.messageComplete, rxState := .header, haveRead := 0 }
    else .ret .progress c
  | .discardOversized =>
    let c := { c with haveRead := c.haveRead + UInt32.ofNat bs.length }
    if c.haveRead = c.msgLen then
      .ret .progress
        { c with discardedFrames := c.discardedFrames + 1, rxState := .header, haveRead := 0 }
    else .ret .progress c

/-- The loop of `Client::read`, from a state in which it calls `::read`. Every turn takes one
answer of the kernel; after `EINTR` the same call is made again. -/
def readLoop (bo : ByteOrder) (c : Client) (p : Peer) : List ReadAnswer → ReadOut
  | [] => ⟨.again, c.offer, p.record c c.want [], []⟩
  | a :: as =>
    match p.sysRead c.want a with
    | .errno .EINTR => readLoop bo c.offer (p.record c c.want []) as
    | .errno .EAGAIN => ⟨.again, c.offer, p.record c c.want [], as⟩
    | .errno _ => ⟨.error, c.offer, p.record c c.want [], as⟩
    | .zero => ⟨.eof, c.offer, p.record c c.want [], as⟩
    | .bytes bs =>
      match c.offer.onBytes bo bs with
      | .loop c' => readLoop bo c' (p.record c c.want bs) as
      | .ret r c' => ⟨r, c', p.record c c.want bs, as⟩

/-- One `Client::read`. With a header that was complete before a pause, the transition decision is
made again before anything is read. -/
def read (bo : ByteOrder) (c : Client) (p : Peer) (answers : List ReadAnswer) : ReadOut :=
  if c.fd < 0 then ⟨.error, c, p, answers⟩
  else if c.rxPaused then ⟨.paused, c, p, answers⟩
  else if c.rxState = .header ∧ kHeaderLen ≤ c.haveRead.toNat then
    match c.headerDone with
    | .ret r c' => ⟨r, c', p, answers⟩
    | .loop c' => readLoop bo c' p answers
  else readLoop bo c p answers

end Client

end KwinApi
