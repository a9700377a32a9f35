import Streamer.ClientThread
import Streamer.Lib.Network
import Streamer.Worker

/-!
# A client and its session

The client of `src/client_main.cpp` at one end of a connection, the thread of its `ClientSession` at the
other. What a step of one side hands to the kernel can be read by the other side at once; a side that
ends closes its descriptor, and the other one sees the end of the stream behind what was sent. The kernel
still cuts every transfer as the schedules of the two sockets say. The two sides move in any order.
-/

namespace Streamer
open Text Kernel Machine

/-- The peer has sent `bs`, and ended its stream if `fin` is set. -/
def Socket.deliver (bs : Bytes) (fin : Bool) (s : Socket) : Socket :=
  { s with inbox := s.inbox ++ bs, fin := s.fin || fin }

namespace ClientThread

def deliver (bs : Bytes) (fin : Bool) (c : ClientThread) : ClientThread :=
  { c with socket := c.socket.deliver bs fin }

def closed (c : ClientThread) : Bool :=
  match c.pc with
  | .exited _ | .thrown _ => true
  | _ => false

def endpoint : Endpoint ClientThread UInt8 where
  step := advance true
  sent c := c.socket.sent
  closed := closed
  deliver := deliver
  fin c := c.socket.fin

end ClientThread

namespace Worker

def deliver (bs : Bytes) (fin : Bool) (w : Worker) : Worker :=
  { w with session := { w.session with socket := w.session.socket.deliver bs fin } }

/-- `run()` is over, or the server has died of an exception. -/
def closed (w : Worker) : Bool :=
  match w.pc with
  | .exited | .thrown _ => true
  | _ => false

/-- The session stands before a receive whose byte is not there. -/
def waits (w : Worker) : Bool :=
  match w.pc with
  | .recv line => decide (line.length < 4096) && w.session.socket.blocks 1
  | _ => false

def advance (cfg : ClientSession.Config) (w : Worker) : Option Worker :=
  if w.waits then none else step cfg w

def endpoint (cfg : ClientSession.Config) : Endpoint Worker UInt8 where
  step := advance cfg
  sent w := w.session.socket.sent
  closed := closed
  deliver := deliver
  fin w := w.session.socket.fin

end Worker

abbrev Conversation := Duplex ClientThread Worker

namespace Conversation

def step (cfg : ClientSession.Config) : Conversation → Side → Option Conversation :=
  Duplex.step ClientThread.endpoint (Worker.endpoint cfg)

/-- `connect` and `accept` have returned. -/
def opened (listMode : Bool) (getFile : Bytes) (disk : LocalDisk) (client server : Socket) : Conversation :=
  ⟨.new listMode getFile disk client, .new server⟩

end Conversation
end Streamer
