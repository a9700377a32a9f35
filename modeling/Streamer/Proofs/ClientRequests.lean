import Streamer.Proofs.Conversations
import Streamer.Proofs.FailedDownload
import Streamer.Proofs.ListTarget

/-!
# From the command line to the connection

What `main` of the client asks for. A command line that is accepted is either for the catalogue or for one
file, never for both (`clientMain_task`): the list mode sets no file name, and without it a file name is
demanded. So on the connection there is one request and the farewell, or a beginning of the two
(`client_speaks`), whatever the kernel, the server and the destination do.
-/

namespace Streamer
open Text

variable {args : List Bytes} {a : ClientArguments} {disk : LocalDisk} {sock : Socket}

/-! ### The command line -/

theorem flagArguments_keeps (a : ClientArguments) (args : List Bytes) {a' : ClientArguments}
    (h : flagArguments a args = .ok a') : a'.listMode = a.listMode := by
  fun_induction flagArguments a args with
  | case1 | case2 | case4 | case6 | case8 =>
    cases h
    rfl
  | case3 a w _ value ws ih | case5 a w _ _ value ws ih | case7 a w _ _ _ value ws ih
  | case9 a w _ _ _ _ value ws ih => exact ih h
  | case10 => cases h

theorem getArguments_listMode (h : getArguments args = .ok a) : a.listMode = false := by
  unfold getArguments at h
  split at h
  · split at h
    · cases h
      rfl
    · exact flagArguments_keeps _ _ h
  · exact flagArguments_keeps _ _ h

/-- A command line that `main` accepts asks for the catalogue or for one file. -/
theorem clientMain_task (h : clientMain args = .ok a) :
    ∃ task : Task, a.listMode = task.listMode ∧ a.getFile = task.getFile ∧
      ∀ filename, task = .get filename → filename ≠ [] := by
  unfold clientMain at h
  split at h
  · cases h
  rename_i a' hargs
  split at h
  · cases h
  rename_i hnamed
  split at h
  · cases h
  cases h
  unfold clientArguments at hargs
  split at hargs
  · cases hargs
  split at hargs
  · cases hargs
    obtain ⟨hfile, hmode⟩ := listArguments_keeps false { listMode := true } args
    exact ⟨.list, hmode, hfile, nofun⟩
  · have hmode := getArguments_listMode hargs
    refine ⟨.get a.getFile, hmode, rfl, ?_⟩
    rintro filename ⟨⟩ hempty
    simp [hmode, hempty] at hnamed

/-! ### The connection -/

theorem doList_eq (sock : Socket) :
    doList sock =
      if !(sock.sendString (ascii "LIST\n")).1 then
        (.ok false, {}, (sock.sendString (ascii "LIST\n")).2)
      else if !(sock.sendString (ascii "LIST\n")).2.recvLine.1 then
        (.ok false, {}, (sock.sendString (ascii "LIST\n")).2.recvLine.2.2)
      else ClientThread.listReceived (sock.sendString (ascii "LIST\n")).2.recvLine.2.2
        (sock.sendString (ascii "LIST\n")).2.recvLine.2.1 := by
  rfl

/-- A request, and the farewell where the reply has come; both can be cut short. -/
def Speaks (sock sock' : Socket) (request : Bytes) (res : Except Exn Bool) : Prop :=
  ∃ said, sock'.sent = sock.sent ++ said ∧ said <+: request ++ ascii "QUIT\n" ∧
    (res = .ok true → request <+: said)

theorem Speaks.of_request {request : Bytes} {res : Except Exn Bool} {sock' : Socket}
    (hsend : (sock.sendString request).1 = false → sock' = (sock.sendString request).2 ∧ res = .ok false)
    (hreply : (sock.sendString request).1 = true →
      ∃ q, q <+: ascii "QUIT\n" ∧ sock'.sent = (sock.sendString request).2.sent ++ q) :
    Speaks sock sock' request res := by
  obtain ⟨acc, hacc, hall, hs⟩ := sock.sendAll_spec request
  have hsent : (sock.sendString request).2.sent = sock.sent ++ acc := congrArg Socket.sent hs
  cases hok : (sock.sendString request).1 with
  | false =>
    obtain ⟨rfl, rfl⟩ := hsend hok
    exact ⟨acc, hsent, hacc.trans (List.prefix_append _ _), nofun⟩
  | true =>
    obtain ⟨q, hq, hend⟩ := hreply hok
    obtain rfl := hall hok
    exact ⟨acc ++ q, by rw [hend, hsent, List.append_assoc], (List.prefix_append_right_inj _).2 hq,
      fun _ => List.prefix_append _ _⟩

theorem doList_speaks (sock : Socket) :
    Speaks sock (doList sock).2.2 (ascii "LIST\n") (doList sock).1 := by
  rw [doList_eq]
  refine .of_request ?_ ?_
  · intro hsend
    simp [hsend]
  · intro hsend
    simp only [hsend, Bool.not_true, Bool.false_eq_true, if_false]
    split
    · exact ⟨[], List.nil_prefix, by simp [recvLine_sent]⟩
    · obtain ⟨q, hq, hs⟩ := listReceived_farewell (sock.sendString (ascii "LIST\n")).2.recvLine.2.2
        (sock.sendString (ascii "LIST\n")).2.recvLine.2.1
      exact ⟨q, hq, by rw [hs, recvLine_sent]⟩

theorem doGet_speaks (disk : LocalDisk) (sock : Socket) (filename : Bytes) :
    Speaks sock (doGet disk sock filename).2.1 (getRequest filename) (doGet disk sock filename).1 := by
  rw [doGet_eq]
  split
  · exact ⟨[], (List.append_nil _).symm, List.nil_prefix, nofun⟩
  refine .of_request ?_ ?_
  · intro hsend
    simp [hsend]
  · intro hsend
    simp only [hsend, Bool.not_true, Bool.false_eq_true, if_false]
    split
    · exact ⟨[], List.nil_prefix, by simp [recvLine_sent]⟩
    · obtain ⟨q, hq, hs⟩ := download_farewell disk (sock.sendString (getRequest filename)).2.recvLine.2.2
        (sock.sendString (getRequest filename)).2.recvLine.2.1
      exact ⟨q, hq, by rw [hs, recvLine_sent]⟩

/-- What the client says for a task, and that a listing touches no file. -/
theorem clientProgram_speaks (task : Task) (hnamed : ∀ filename, task = .get filename → filename ≠ [])
    (disk : LocalDisk) (sock : Socket) :
    Speaks sock (clientProgram task.listMode task.getFile disk sock).2.2.1 (task.line ++ [newline])
        (clientProgram task.listMode task.getFile disk sock).1 ∧
      (task = .list → (clientProgram task.listMode task.getFile disk sock).2.2.2 = disk) := by
  cases task with
  | list =>
    obtain ⟨said, hs, hpre, hok⟩ := doList_speaks sock
    have hclose := (Socket.close_streams (doList sock).2.2).1
    simp only [clientProgram, Task.listMode, Task.getFile, if_true]
    cases hres : (doList sock).1 with
    | error x => exact ⟨⟨said, hclose.trans hs, hpre, fun h => by cases h⟩, fun _ => rfl⟩
    | ok ok =>
      simp only [List.isEmpty_nil, Bool.not_true, Bool.and_false, Bool.false_eq_true, if_false]
      refine ⟨⟨said, hclose.trans hs, hpre, ?_⟩, fun _ => trivial⟩
      exact fun h => hok (hres.trans h)
  | get filename =>
    obtain ⟨said, hs, hpre, hok⟩ := doGet_speaks disk sock filename
    have hclose := (Socket.close_streams (doGet disk sock filename).2.1).1
    have hne : filename.isEmpty = false := by simpa using hnamed filename rfl
    simp only [clientProgram, Task.listMode, Task.getFile, Bool.false_eq_true, if_false, hne,
      Bool.not_false, Bool.and_true, if_true]
    exact ⟨⟨said, hclose.trans hs, hpre, hok⟩, fun h => by cases h⟩

theorem clientProgram_closes (listMode : Bool) (getFile : Bytes) (disk : LocalDisk) (sock : Socket) :
    (clientProgram listMode getFile disk sock).2.2.1.fd < 0 := by
  have hclose (s : Socket) : s.close.fd < 0 := by
    unfold Socket.close
    split
    · exact Int.negSucc_lt_zero 0
    · exact Int.not_le.1 ‹_›
  unfold clientProgram
  dsimp only
  repeat' split
  all_goals exact hclose _

/-- For every command line that the client accepts, and whatever the kernel, the server and the destination
do: the client asks for one thing, the catalogue or a file that the command line names, and says nothing
else but `QUIT`; it returns 0 only when it has asked; the list mode leaves the destination alone; and it
closes the connection. -/
theorem client_speaks (h : clientMain args = .ok a) (disk : LocalDisk) (sock : Socket) :
    ∃ task : Task, a.listMode = task.listMode ∧ a.getFile = task.getFile ∧
      Speaks sock (clientProgram a.listMode a.getFile disk sock).2.2.1 (task.line ++ [newline])
        (clientProgram a.listMode a.getFile disk sock).1 ∧
      (task = .list → (clientProgram a.listMode a.getFile disk sock).2.2.2 = disk) ∧
      (clientProgram a.listMode a.getFile disk sock).2.2.1.fd < 0 := by
  obtain ⟨task, hmode, hfile, hnamed⟩ := clientMain_task h
  obtain ⟨hspeaks, hdisk⟩ := clientProgram_speaks task hnamed disk sock
  rw [hmode, hfile]
  exact ⟨task, rfl, rfl, hspeaks, hdisk, clientProgram_closes _ _ _ _⟩

def sampleArguments : List Bytes := [ascii "127.0.0.1", ascii "8080", ascii "clip.mp4"]

/-- The file is not there, and the server closes. -/
def refusedSocket : Socket :=
  { fd := 3
    inbox := ascii "ERROR FILE_NOT_FOUND\n"
    fin := true
    recvs := List.replicate 24 (.moves 1)
    sent := []
    sends := List.replicate 24 (.moves 1) }

theorem sample_client_speaks : ∃ a, ∃ task : Task, clientMain sampleArguments = .ok a ∧
    task.getFile = ascii "clip.mp4" ∧
    Speaks refusedSocket
      (clientProgram a.listMode a.getFile ⟨true, true, [], 0, true, none⟩ refusedSocket).2.2.1
      (task.line ++ [newline])
      (clientProgram a.listMode a.getFile ⟨true, true, [], 0, true, none⟩ refusedSocket).1 := by
  have h : clientMain sampleArguments = .ok { getFile := ascii "clip.mp4" } := by decide +kernel
  obtain ⟨task, -, hfile, hspeaks, -⟩ := client_speaks h ⟨true, true, [], 0, true, none⟩ refusedSocket
  exact ⟨_, task, h, hfile.symm, hspeaks⟩

end Streamer
