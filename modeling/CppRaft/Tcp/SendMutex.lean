import CppRaft.Machine.Trace
import CppRaft.Tcp.Frames
import CppRaft.Tcp.Membership

/-!
# The socket of a node and its mutex

Several threads write to the socket of a node. Each writes a frame in parts, one call of `writeC`
for each, and holds `senderMutex` from the first to the last. `writeC` connects again where the
socket is closed, and the receiving thread may close it, or an accepted connection may take its
place, between two parts; and when it starts, the periodic thread writes one byte without the
mutex. Whatever turns the threads take, no two frames are mixed: what is written under the mutex
are the frames in the order in which it was locked, each from its start and as far as its thread
got. And unless something happens in the middle of a frame, every connection carries whole frames.
-/

namespace CppRaft

namespace Tcp

open Machine

/-- What a thread writes under the mutex: `SendInformationToNode`, which without key and data is
also the byte of `response::ok`, or the frame of `SendClbkFunction`. -/
inductive LineFrame where
  | information (request : ReceiveRequest) (extraData : Option (List UInt8))
      (nodeKey : Option NodeIdentifierKey)
  | clbkCmd (type : MessageType) (sendData : List UInt8)
  deriving DecidableEq

namespace LineFrame

/-- The calls of `writeC` for a frame. -/
def parts (o : ByteOrder) : LineFrame → List (List UInt8)
  | information request extraData nodeKey =>
      [request.code] :: ((nodeKey.elim [] fun key => [(key.image o).bytes]) ++
        extraData.elim [] fun data =>
          o.bytes (intWord (extraDataLen data)) ::
            if 0 < extraDataLen data then [data.take (extraDataLen data).toNat] else [])
  | clbkCmd type sendData =>
      [[ReceiveRequest.clbkCmd.code], o.bytes type.code, sendData]

/-- The bytes of a frame. -/
def bytes (o : ByteOrder) (frame : LineFrame) : List UInt8 :=
  (frame.parts o).flatten

/-- The parts of a membership frame make up the bytes of `SendInformationToNode`. -/
theorem bytes_information (o : ByteOrder) (request : ReceiveRequest)
    (extraData : Option (List UInt8)) (nodeKey : Option NodeIdentifierKey) :
    (information request extraData nodeKey).bytes o =
      sendInformationToNode o request extraData nodeKey := by
  have data (data : List UInt8) :
      (if 0 < extraDataLen data then [data.take (extraDataLen data).toNat] else []).flatten =
        sentData data := by
    rw [sentData]
    split <;> simp
  cases extraData <;> cases nodeKey <;>
    simp [bytes, parts, sendInformationToNode, data]

/-- Every frame has a first part. -/
theorem parts_ne_nil (o : ByteOrder) (frame : LineFrame) : frame.parts o ≠ [] := by
  cases frame <;> exact List.cons_ne_nil _ _

/-- What `SendClbkFunction` writes, if it writes anything. -/
theorem bytes_clbkCmd (o : ByteOrder) {c : SendContext} {type : MessageType}
    (writes : c.writes type = true) (sendData : List UInt8) :
    (clbkCmd type sendData).bytes o = (sendClbkFunction o c type sendData).written := by
  rw [written_sendClbkFunction, if_pos writes]
  simp [bytes, parts]

end LineFrame

/-- Where a thread is: elsewhere, before the mutex, between two parts of its frame, or after a part
that could not be written. -/
inductive SendPc where
  | idle
  | waiting (frame : LineFrame)
  | writing (done rest : List (List UInt8))
  | leaving
  deriving DecidableEq

/-- The thread has the mutex. -/
def SendPc.holds : SendPc → Bool
  | idle => false
  | waiting _ => false
  | writing _ _ => true
  | leaving => true

/-- What happens at the socket: steps of a thread, and `closeC` by the receiving thread, `setSocket`
for an accepted connection, and the byte of the periodic thread. A part comes with whether a
connection could be made, if it was needed, and how many bytes the socket takes. -/
inductive LineEvent (ι : Type) where
  | request (i : ι) (frame : LineFrame)
  | lock (i : ι)
  | write (i : ι) (connects : Bool) (taken : ℕ)
  | unlock (i : ι)
  | close
  | bridge
  | bare (connects : Bool)
  deriving DecidableEq

/-- A connection is made; bytes are written to it under the mutex; or the byte without it. -/
inductive LineAction where
  | connect (connection : ℕ)
  | part (connection : ℕ) (bytes : List UInt8)
  | bare (connection : ℕ)
  deriving DecidableEq

/-- The threads, the mutex and the socket. Connections are numbered as they come. -/
structure Line (ι : Type) where
  pc : ι → SendPc
  holder : Option ι
  socket : Option ℕ
  opened : ℕ

variable {ι : Type} [DecidableEq ι]

namespace Line

/-- No thread is at the socket, and it is closed. -/
def start : Line ι :=
  ⟨fun _ => .idle, none, none, 0⟩

/-- A thread goes to a place. -/
def goto (s : Line ι) (i : ι) (pc : SendPc) : Line ι :=
  { s with pc := Function.update s.pc i pc }

/-- `writeC` before it writes: the connection, which is made if there is none. -/
def connected (connects : Bool) (s : Line ι) : Option (ℕ × Line ι × List LineAction) :=
  match s.socket with
  | some connection => some (connection, s, [])
  | none =>
      if connects then
        some (s.opened, { s with socket := some s.opened, opened := s.opened + 1 },
          [.connect s.opened])
      else none

/-- The call of `writeC` for the next part. -/
def writePart (s : Line ι) (i : ι) (connects : Bool) (taken : ℕ) (done : List (List UInt8))
    (part : List UInt8) (rest : List (List UInt8)) : Effect (Line ι) LineAction :=
  match s.connected connects with
  | none => .done (s.goto i .leaving)
  | some (connection, s, actions) =>
      if part.length ≤ taken then
        ⟨s.goto i (.writing (done ++ [part]) rest), actions ++ [.part connection part]⟩
      else ⟨s.goto i .leaving, actions ++ [.part connection (part.take taken)]⟩

/-- One event. -/
def next (o : ByteOrder) (s : Line ι) : LineEvent ι → Option (Effect (Line ι) LineAction)
  | .request i frame =>
      match s.pc i with
      | .idle => some (.done (s.goto i (.waiting frame)))
      | _ => none
  | .lock i =>
      match s.pc i, s.holder with
      | .waiting frame, none =>
          some (.done { s.goto i (.writing [] (frame.parts o)) with holder := some i })
      | _, _ => none
  | .write i connects taken =>
      match s.pc i with
      | .writing done (part :: rest) => some (s.writePart i connects taken done part rest)
      | _ => none
  | .unlock i =>
      match s.pc i with
      | .writing _ [] => some (.done { s.goto i .idle with holder := none })
      | .leaving => some (.done { s.goto i .idle with holder := none })
      | _ => none
  | .close => some (.done { s with socket := none })
  | .bridge => some (.done { s with socket := some s.opened, opened := s.opened + 1 })
  | .bare connects =>
      match s.connected connects with
      | none => some (.done s)
      | some (connection, s, actions) => some ⟨s, actions ++ [.bare connection]⟩

/-- The socket of a node as a machine. -/
def machine (o : ByteOrder) : Machine (Line ι) (LineEvent ι) LineAction where
  step := next o

/-- One event of a run. -/
abbrev Step (ι : Type) : Type :=
  Transition (Line ι) (LineEvent ι) LineAction

/-- What a connection that is made or found leaves as it is. -/
structure Connected (s s' : Line ι) (connection : ℕ) (actions : List LineAction) : Prop where
  pc : s'.pc = s.pc
  holder : s'.holder = s.holder
  socket : s'.socket = some connection
  same : ∀ old, s.socket = some old → old = connection
  actions : ∀ action ∈ actions, action = .connect connection

omit [DecidableEq ι] in
/-- A connection that is made before a write changes the socket and nothing else. -/
theorem connected_of_eq {s s' : Line ι} {connects : Bool} {connection : ℕ}
    {actions : List LineAction} (opens : s.connected connects = some (connection, s', actions)) :
    Connected s s' connection actions := by
  unfold connected at opens
  split at opens
  · rename_i open'
    cases opens
    refine ⟨rfl, rfl, open', fun old found => ?_, List.forall_mem_nil _⟩
    exact Option.some.inj (found.symm.trans open')
  · rename_i closed
    split at opens
    · cases opens
      refine ⟨rfl, rfl, rfl, fun old found => ?_, List.forall_mem_singleton.mpr rfl⟩
      cases closed.symm.trans found
    · cases opens

/-- What an event can do. -/
inductive StepResult (o : ByteOrder) (s : Line ι) :
    LineEvent ι → Line ι → List LineAction → Prop where
  | request {i : ι} {frame : LineFrame} (idle : s.pc i = .idle) :
      StepResult o s (.request i frame) (s.goto i (.waiting frame)) []
  | lock {i : ι} {frame : LineFrame} (waits : s.pc i = .waiting frame) (free : s.holder = none) :
      StepResult o s (.lock i) { s.goto i (.writing [] (frame.parts o)) with holder := some i } []
  | refused {i : ι} {connects : Bool} {taken : ℕ} {done rest : List (List UInt8)}
      {part : List UInt8} (writes : s.pc i = .writing done (part :: rest)) :
      StepResult o s (.write i connects taken) (s.goto i .leaving) []
  | wrote {i : ι} {connects : Bool} {taken : ℕ} {done rest : List (List UInt8)}
      {part : List UInt8} {connection : ℕ} {s' : Line ι} {actions : List LineAction}
      (writes : s.pc i = .writing done (part :: rest))
      (connected : Connected s s' connection actions) :
      StepResult o s (.write i connects taken) (s'.goto i (.writing (done ++ [part]) rest))
        (actions ++ [.part connection part])
  | cut {i : ι} {connects : Bool} {taken : ℕ} {done rest : List (List UInt8)}
      {part : List UInt8} {connection : ℕ} {s' : Line ι} {actions : List LineAction}
      (writes : s.pc i = .writing done (part :: rest))
      (connected : Connected s s' connection actions) :
      StepResult o s (.write i connects taken) (s'.goto i .leaving)
        (actions ++ [.part connection (part.take taken)])
  | unlock {i : ι} (ended : s.pc i = .leaving ∨ ∃ done, s.pc i = .writing done []) :
      StepResult o s (.unlock i) { s.goto i .idle with holder := none } []
  | close : StepResult o s .close { s with socket := none } []
  | bridge : StepResult o s .bridge { s with socket := some s.opened, opened := s.opened + 1 } []
  | unsent {connects : Bool} : StepResult o s (.bare connects) s []
  | bare {connects : Bool} {connection : ℕ} {s' : Line ι} {actions : List LineAction}
      (connected : Connected s s' connection actions) :
      StepResult o s (.bare connects) s' (actions ++ [.bare connection])

/-- Every event does one of the things of `StepResult`. -/
theorem step_result {o : ByteOrder} {s : Line ι} {event : LineEvent ι}
    {effect : Effect (Line ι) LineAction} (stepped : (machine o).step s event = some effect) :
    StepResult o s event effect.state effect.emitted := by
  change next o s event = some effect at stepped
  cases event with
  | request i frame =>
      rw [next] at stepped
      split at stepped
      · cases stepped
        exact .request ‹_›
      · cases stepped
  | lock i =>
      rw [next] at stepped
      split at stepped
      · cases stepped
        exact .lock ‹_› ‹_›
      · cases stepped
  | write i connects taken =>
      rw [next] at stepped
      split at stepped
      · rename_i done part rest writes
        rw [Option.some.injEq] at stepped
        subst stepped
        unfold writePart
        split
        · exact .refused writes
        · rename_i connection s' actions opens
          split
          · exact .wrote writes (connected_of_eq opens)
          · exact .cut writes (connected_of_eq opens)
      · cases stepped
  | unlock i =>
      rw [next] at stepped
      split at stepped
      · cases stepped
        exact .unlock (Or.inr ⟨_, ‹_›⟩)
      · cases stepped
        exact .unlock (Or.inl ‹_›)
      · cases stepped
  | close =>
      cases stepped
      exact .close
  | bridge =>
      cases stepped
      exact .bridge
  | bare connects =>
      rw [next] at stepped
      split at stepped
      · cases stepped
        exact .unsent
      · cases stepped
        exact .bare (connected_of_eq ‹_›)

/-- What is written under the mutex in one hold of it: whose hold it is, the frame, and the pieces
with the connection that carries each. -/
structure Hold (ι : Type) where
  owner : ι
  frame : LineFrame
  pieces : List (ℕ × List UInt8)

/-- The bytes of a hold. -/
def Hold.bytes (hold : Hold ι) : List UInt8 :=
  hold.pieces.flatMap Prod.snd

/-- The piece that an action writes under the mutex. -/
def piece? : LineAction → Option (ℕ × List UInt8)
  | .part connection bytes => some (connection, bytes)
  | _ => none

/-- What is written under the mutex, in order. -/
def pieces (trace : List (Step ι)) : List (ℕ × List UInt8) :=
  (emissions trace).filterMap piece?

/-- The frame for which an event takes the mutex. -/
def locked? (t : Step ι) : Option (ι × LineFrame) :=
  match t.event with
  | .lock i =>
      match t.before.pc i with
      | .waiting frame => some (i, frame)
      | _ => none
  | _ => none

/-- The frames in the order in which the mutex was taken for them. -/
def locked (trace : List (Step ι)) : List (ι × LineFrame) :=
  trace.filterMap locked?

/-- The holds of a run one after the other. -/
structure Serial (o : ByteOrder) (trace : List (Step ι)) (holds : List (Hold ι)) : Prop where
  order : holds.map (fun hold => (hold.owner, hold.frame)) = locked trace
  output : pieces trace = holds.flatMap Hold.pieces
  sound : ∀ hold ∈ holds, hold.bytes <+: hold.frame.bytes o

/-- The thread that has the mutex, if any, is writing the last of the holds. -/
structure Current (o : ByteOrder) (s : Line ι) (holds : List (Hold ι)) : Prop where
  holder : ∀ i, (s.pc i).holds = true ↔ s.holder = some i
  last : ∀ i done rest, s.pc i = .writing done rest → ∃ before hold, holds = before ++ [hold] ∧
    done ++ rest = hold.frame.parts o ∧ hold.pieces.map Prod.snd = done

/-- A thread has written some of its frame and not all. -/
def Midway (s : Line ι) : Prop :=
  ∃ i done rest, s.pc i = .writing done rest ∧ done ≠ [] ∧ rest ≠ []

/-- The event disturbs no frame: no part fails, the byte of the periodic thread is not written, and
the connection does not change in the middle of a frame. -/
def Undisturbed (t : Step ι) : Prop :=
  match t.event with
  | .write i _ _ => t.after.pc i ≠ .leaving
  | .close => ¬Midway t.before
  | .bridge => ¬Midway t.before
  | .bare _ => False
  | _ => True

/-- All pieces of a hold are on one connection. -/
def Hold.On (hold : Hold ι) (connection : ℕ) : Prop :=
  ∀ piece ∈ hold.pieces, piece.1 = connection

/-- The whole frame was written, to one connection. -/
structure Hold.Whole (o : ByteOrder) (hold : Hold ι) : Prop where
  parts : hold.pieces.map Prod.snd = hold.frame.parts o
  connection : ∃ connection, hold.On connection

/-- Nothing has been disturbed: the frames are whole, up to the one that is being written, which
is on the connection that the socket has. -/
structure Tidy (o : ByteOrder) (s : Line ι) (holds : List (Hold ι)) : Prop where
  stays : ∀ i, s.pc i ≠ .leaving
  finished : s.holder = none → ∀ hold ∈ holds, hold.Whole o
  writing : ∀ i done rest, s.pc i = .writing done rest → ∀ before hold, holds = before ++ [hold] →
    (∀ earlier ∈ before, earlier.Whole o) ∧ ∃ connection, hold.On connection ∧
      (done ≠ [] → rest ≠ [] → s.socket = some connection)

variable {o : ByteOrder} {trace : List (Step ι)} {t : Step ι} {s s' : Line ι}
  {holds : List (Hold ι)}

omit [DecidableEq ι] in
/-- The pieces of a run are collected event by event. -/
theorem pieces_append : pieces (trace ++ [t]) = pieces trace ++ t.emitted.filterMap piece? := by
  rw [pieces, emissions_append_singleton, List.filterMap_append, pieces]

omit [DecidableEq ι] in
/-- So are the frames for which the mutex was taken. -/
theorem locked_append : locked (trace ++ [t]) = locked trace ++ (locked? t).toList := by
  rw [locked, List.filterMap_append, locked]
  cases takes : locked? t <;> simp [takes]

omit [DecidableEq ι] in
/-- Making a connection writes nothing under the mutex. -/
theorem Connected.filterMap_piece? {connection : ℕ} {actions : List LineAction}
    (connected : Connected s s' connection actions) (last : LineAction) :
    (actions ++ [last]).filterMap piece? = (piece? last).toList := by
  have none : actions.filterMap piece? = [] := by
    refine List.filterMap_eq_nil_iff.mpr fun action member => ?_
    rw [connected.actions action member]
    rfl
  rw [List.filterMap_append, none]
  cases writes : piece? last <;> simp [writes]

omit [DecidableEq ι] in
/-- An event that takes no mutex and writes nothing under it. -/
theorem Serial.append (serial : Serial o trace holds) (unlocked : locked? t = none)
    (silent : t.emitted.filterMap piece? = []) : Serial o (trace ++ [t]) holds := by
  refine ⟨?_, ?_, serial.sound⟩
  · rw [locked_append, unlocked, serial.order]
    exact (List.append_nil _).symm
  · rw [pieces_append, silent, List.append_nil, serial.output]

omit [DecidableEq ι] in
/-- An event that takes the mutex. -/
theorem Serial.lock (serial : Serial o trace holds) {i : ι} {frame : LineFrame}
    (takes : locked? t = some (i, frame)) (silent : t.emitted = []) :
    Serial o (trace ++ [t]) (holds ++ [⟨i, frame, []⟩]) := by
  refine ⟨?_, ?_, ?_⟩
  · rw [locked_append, takes, List.map_append, serial.order]
    rfl
  · rw [pieces_append, silent, serial.output, List.flatMap_append]
    rfl
  · refine List.forall_mem_append.mpr ⟨serial.sound, List.forall_mem_singleton.mpr ?_⟩
    exact List.nil_prefix

omit [DecidableEq ι] in
/-- An event that writes a piece of the last frame. -/
theorem Serial.write {before : List (Hold ι)} {hold : Hold ι}
    (serial : Serial o trace (before ++ [hold])) {piece : ℕ × List UInt8}
    (unlocked : locked? t = none) (writes : t.emitted.filterMap piece? = [piece])
    (inside : hold.bytes ++ piece.2 <+: hold.frame.bytes o) :
    Serial o (trace ++ [t]) (before ++ [{ hold with pieces := hold.pieces ++ [piece] }]) := by
  refine ⟨?_, ?_, ?_⟩
  · rw [locked_append, unlocked, ← serial.order]
    simp
  · rw [pieces_append, writes, serial.output]
    simp
  · obtain ⟨sound, -⟩ := List.forall_mem_append.mp serial.sound
    refine List.forall_mem_append.mpr ⟨sound, List.forall_mem_singleton.mpr ?_⟩
    simpa [Hold.bytes] using inside

omit [DecidableEq ι] in
/-- One thread has the mutex. -/
theorem Current.only (current : Current o s holds) {i j : ι} (first : (s.pc i).holds = true)
    (second : (s.pc j).holds = true) : i = j :=
  Option.some.inj (((current.holder i).mp first).symm.trans ((current.holder j).mp second))

/-- A thread that comes to the mutex is not the one that writes, so the last hold is as it
was. -/
theorem Current.request (current : Current o s holds) {i : ι} (idle : s.pc i = .idle)
    (frame : LineFrame) : Current o (s.goto i (.waiting frame)) holds := by
  refine ⟨fun j => ?_, fun j done rest => ?_⟩
  · rw [goto]
    by_cases moved : j = i
    · subst moved
      have free := current.holder j
      rw [idle] at free
      simpa [SendPc.holds] using free
    · simp only [Function.update_of_ne moved]
      exact current.holder j
  · rw [goto]
    by_cases moved : j = i
    · subst moved
      simp only [Function.update_self]
      rintro ⟨⟩
    · simp only [Function.update_of_ne moved]
      exact current.last j done rest

/-- A step of the thread that has the mutex, or gets it, and may add to the holds: it is the
only thread that the last hold can belong to. -/
theorem current_of_holder {holds' : List (Hold ι)} {i : ι} {pc : SendPc}
    (others : ∀ j, j ≠ i → (s.pc j).holds = false) (keeps : pc.holds = true)
    (last : ∀ done rest, pc = .writing done rest → ∃ before hold, holds' = before ++ [hold] ∧
      done ++ rest = hold.frame.parts o ∧ hold.pieces.map Prod.snd = done)
    (socket : Option ℕ) (opened : ℕ) :
    Current o ⟨Function.update s.pc i pc, some i, socket, opened⟩ holds' := by
  refine ⟨fun j => ?_, fun j done rest => ?_⟩
  · by_cases moved : j = i
    · subst moved
      simp only [Function.update_self, keeps]
    · simp only [Function.update_of_ne moved, others j moved, Option.some.injEq, Ne.symm moved,
        Bool.false_eq_true]
  · by_cases moved : j = i
    · subst moved
      simp only [Function.update_self]
      exact last done rest
    · simp only [Function.update_of_ne moved]
      intro writes
      have free := others j moved
      rw [writes] at free
      cases free

/-- Giving the mutex back ends the last hold. -/
theorem Current.unlock (current : Current o s holds) {i : ι} (has : (s.pc i).holds = true) :
    Current o { s.goto i .idle with holder := none } holds := by
  have nobody (j : ι) : (Function.update s.pc i .idle j).holds = false := by
    by_cases moved : j = i
    · subst moved
      simp only [Function.update_self, SendPc.holds]
    · simp only [Function.update_of_ne moved]
      by_contra holds
      exact moved (current.only (Bool.eq_true_of_not_eq_false holds) has)
  refine ⟨fun j => ?_, fun j done rest writes => ?_⟩
  · exact iff_of_false (by rw [goto, nobody j]; exact Bool.false_ne_true) nofun
  · have free := nobody j
    rw [show Function.update s.pc i .idle j = .writing done rest from writes] at free
    cases free

omit [DecidableEq ι] in
/-- The bytes of a hold are those of its pieces. -/
theorem Hold.bytes_eq (hold : Hold ι) : hold.bytes = (hold.pieces.map Prod.snd).flatten :=
  List.flatMap_def

section Tidy

variable {i : ι} {done rest : List (List UInt8)} {part : List UInt8}

/-- A thread that comes to the mutex disturbs nothing. -/
theorem Tidy.request (tidy : Tidy o s holds) (idle : s.pc i = .idle) (frame : LineFrame) :
    Tidy o (s.goto i (.waiting frame)) holds := by
  refine ⟨fun j => ?_, tidy.finished, fun j done rest => ?_⟩
  · by_cases moved : j = i
    · subst moved
      simp only [goto, Function.update_self]
      exact nofun
    · simp only [goto, Function.update_of_ne moved]
      exact tidy.stays j
  · by_cases moved : j = i
    · subst moved
      simp only [goto, Function.update_self]
      exact nofun
    · simp only [goto, Function.update_of_ne moved]
      exact tidy.writing j done rest

/-- The thread that has the mutex goes on, and the others do not have it; only its own hold
has to be looked at. -/
theorem tidy_of_holder {holds' : List (Hold ι)} {socket : Option ℕ} {opened : ℕ}
    (tidy : Tidy o s holds) (others : ∀ j, j ≠ i → (s.pc j).holds = false)
    (last : ∀ before hold, holds' = before ++ [hold] →
      (∀ earlier ∈ before, earlier.Whole o) ∧ ∃ connection, hold.On connection ∧
        (done ≠ [] → rest ≠ [] → socket = some connection)) :
    Tidy o ⟨Function.update s.pc i (.writing done rest), some i, socket, opened⟩ holds' := by
  refine ⟨fun j => ?_, nofun, fun j done' rest' => ?_⟩
  · by_cases moved : j = i
    · subst moved
      simp only [Function.update_self]
      exact nofun
    · simp only [Function.update_of_ne moved]
      exact tidy.stays j
  · by_cases moved : j = i
    · subst moved
      simp only [Function.update_self]
      rintro ⟨⟩
      exact last
    · simp only [Function.update_of_ne moved]
      intro writes
      have free := others j moved
      rw [writes] at free
      cases free

/-- The mutex is given back after the whole frame. -/
theorem Tidy.unlock (tidy : Tidy o s holds) (current : Current o s holds)
    (writes : s.pc i = .writing done []) :
    Tidy o { s.goto i .idle with holder := none } holds := by
  obtain ⟨before, hold, rfl, parts, written⟩ := current.last i done [] writes
  obtain ⟨earlier, connection, on, -⟩ := tidy.writing i done [] writes before hold rfl
  have has : (s.pc i).holds = true := by rw [writes, SendPc.holds]
  have whole : hold.Whole o := ⟨by rw [written, ← parts, List.append_nil], connection, on⟩
  refine ⟨fun j => ?_, fun _ => List.forall_mem_append.mpr ⟨earlier,
    List.forall_mem_singleton.mpr whole⟩, fun j done' rest' => ?_⟩
  · by_cases moved : j = i
    · subst moved
      simp only [goto, Function.update_self]
      exact nofun
    · simp only [goto, Function.update_of_ne moved]
      exact tidy.stays j
  · by_cases moved : j = i
    · subst moved
      simp only [goto, Function.update_self]
      exact nofun
    · simp only [goto, Function.update_of_ne moved]
      intro writes'
      exact absurd (current.only (by rw [writes', SendPc.holds]) has) moved

omit [DecidableEq ι] in
/-- Between two frames the connection may change. -/
theorem Tidy.switch (tidy : Tidy o s holds) (still : ¬Midway s) (socket : Option ℕ) (opened : ℕ) :
    Tidy o { s with socket := socket, opened := opened } holds := by
  refine ⟨tidy.stays, tidy.finished, fun i done rest writes before hold last => ?_⟩
  obtain ⟨earlier, connection, on, -⟩ := tidy.writing i done rest writes before hold last
  refine ⟨earlier, connection, on, fun begun more => ?_⟩
  exact absurd ⟨i, done, rest, writes, begun, more⟩ still

end Tidy

/-- After an event the holds are still one after the other, and an event that disturbs no frame
leaves them tidy. -/
theorem StepResult.serial {event : LineEvent ι} {actions : List LineAction}
    (result : StepResult o s event s' actions) (serial : Serial o trace holds)
    (current : Current o s holds) :
    ∃ holds', Serial o (trace ++ [⟨s, event, s', actions⟩]) holds' ∧ Current o s' holds' ∧
      (Undisturbed ⟨s, event, s', actions⟩ → Tidy o s holds → Tidy o s' holds') := by
  have others {i : ι} (has : (s.pc i).holds = true) (j : ι) (other : j ≠ i) :
      (s.pc j).holds = false := by
    by_contra holds
    exact other (current.only (Bool.eq_true_of_not_eq_false holds) has)
  cases result with
  | @request i frame idle =>
      exact ⟨holds, serial.append rfl rfl, current.request idle frame,
        fun _ tidy => tidy.request idle frame⟩
  | @lock i frame waits free =>
      have takes : locked? (⟨s, .lock i,
          { s.goto i (.writing [] (frame.parts o)) with holder := some i }, []⟩ : Step ι) =
            some (i, frame) := by
        simp only [locked?, waits]
      have nobody (j : ι) (_ : j ≠ i) : (s.pc j).holds = false := by
        by_contra has
        have held := (current.holder j).mp (Bool.eq_true_of_not_eq_false has)
        cases free.symm.trans held
      refine ⟨_, serial.lock takes rfl, current_of_holder nobody rfl ?_ _ _, fun _ tidy => ?_⟩
      · rintro _ _ ⟨⟩
        exact ⟨holds, _, rfl, rfl, rfl⟩
      · refine tidy_of_holder tidy nobody fun before hold same => ?_
        obtain ⟨rfl, ⟨⟩⟩ := List.append_inj' same rfl
        exact ⟨tidy.finished free, 0, List.forall_mem_nil _, fun none => absurd rfl none⟩
  | @refused i connects taken done rest part writes =>
      have has : (s.pc i).holds = true := by rw [writes, SendPc.holds]
      have held := (current.holder i).mp has
      refine ⟨holds, serial.append rfl rfl, ?_, fun undisturbed => ?_⟩
      · rw [goto, held]
        refine current_of_holder (others has) rfl ?_ _ _
        rintro _ _ ⟨⟩
      · exact absurd (Function.update_self ..) undisturbed
  | @wrote i connects taken done rest part connection s' actions writes connected =>
      have has : (s.pc i).holds = true := by rw [writes, SendPc.holds]
      have held := (current.holder i).mp has
      obtain ⟨before, hold, rfl, parts, written⟩ := current.last i done (part :: rest) writes
      have inside : hold.bytes ++ part <+: hold.frame.bytes o := by
        rw [LineFrame.bytes, ← parts, hold.bytes_eq, written]
        exact ⟨rest.flatten, by simp⟩
      refine ⟨_, serial.write rfl (connected.filterMap_piece? _) inside, ?_, fun _ tidy => ?_⟩
      · rw [goto, connected.pc, connected.holder, held]
        refine current_of_holder (others has) rfl ?_ _ _
        rintro _ _ ⟨⟩
        refine ⟨before, _, rfl, ?_, ?_⟩
        · rw [← parts, List.append_assoc, List.singleton_append]
        · rw [List.map_append, written, List.map_singleton]
      · obtain ⟨earlier, old, on, kept⟩ := tidy.writing i done (part :: rest) writes before hold rfl
        rw [goto, connected.pc, connected.holder, held]
        refine tidy_of_holder tidy (others has) fun before' hold' same => ?_
        obtain ⟨rfl, ⟨⟩⟩ := List.append_inj' same rfl
        refine ⟨earlier, connection, ?_, fun _ _ => connected.socket⟩
        refine List.forall_mem_append.mpr
          ⟨fun piece member => ?_, List.forall_mem_singleton.mpr rfl⟩
        -- The frame was begun, so the socket was open and is the same.
        have begun : done ≠ [] := by
          rintro rfl
          rw [List.map_eq_nil_iff.mp written] at member
          cases member
        exact (on piece member).trans (connected.same old (kept begun (List.cons_ne_nil _ _)))
  | @cut i connects taken done rest part connection s' actions writes connected =>
      have has : (s.pc i).holds = true := by rw [writes, SendPc.holds]
      have held := (current.holder i).mp has
      obtain ⟨before, hold, rfl, parts, written⟩ := current.last i done (part :: rest) writes
      have inside : hold.bytes ++ part.take taken <+: hold.frame.bytes o := by
        rw [LineFrame.bytes, ← parts, hold.bytes_eq, written]
        refine ⟨part.drop taken ++ rest.flatten, ?_⟩
        rw [List.flatten_append, List.flatten_cons, List.append_assoc, ← List.append_assoc
          (part.take taken), List.take_append_drop]
      refine ⟨_, serial.write rfl (connected.filterMap_piece? _) inside, ?_,
        fun undisturbed => absurd (Function.update_self ..) undisturbed⟩
      rw [goto, connected.pc, connected.holder, held]
      refine current_of_holder (others has) rfl ?_ _ _
      rintro _ _ ⟨⟩
  | @unlock i ended =>
      have has : (s.pc i).holds = true := by
        rcases ended with leaving | ⟨done, written⟩
        · rw [leaving, SendPc.holds]
        · rw [written, SendPc.holds]
      refine ⟨holds, serial.append rfl rfl, current.unlock has, fun _ tidy => ?_⟩
      obtain ⟨done, written⟩ := ended.resolve_left (tidy.stays i)
      exact tidy.unlock current written
  | close =>
      exact ⟨holds, serial.append rfl rfl, ⟨current.holder, current.last⟩,
        fun still tidy => tidy.switch still none s.opened⟩
  | bridge =>
      exact ⟨holds, serial.append rfl rfl, ⟨current.holder, current.last⟩,
        fun still tidy => tidy.switch still (some s.opened) (s.opened + 1)⟩
  | unsent => exact ⟨holds, serial.append rfl rfl, current, fun undisturbed => undisturbed.elim⟩
  | bare connected =>
      refine ⟨holds, serial.append rfl (connected.filterMap_piece? _), ⟨?_, ?_⟩,
        fun undisturbed => undisturbed.elim⟩
      · rw [connected.pc, connected.holder]
        exact current.holder
      · rw [connected.pc]
        exact current.last

/-- In every run the holds are one after the other: what is written under the mutex is never
between the pieces of another hold. -/
theorem serial_of_run (run : (machine o).Run start trace s) :
    ∃ holds, Serial o trace holds ∧ Current o s holds ∧
      ((∀ t ∈ trace, Undisturbed t) → Tidy o s holds) := by
  induction run with
  | nil =>
      refine ⟨[], ⟨rfl, rfl, List.forall_mem_nil _⟩, ⟨fun i => ?_, fun i done rest writes => ?_⟩,
        fun _ => ⟨fun i => nofun, fun _ => List.forall_mem_nil _, fun i done rest writes => ?_⟩⟩
      · exact iff_of_false Bool.false_ne_true nofun
      · cases writes
      · cases writes
  | @snoc trace s event effect earlier stepped ih =>
      obtain ⟨holds, serial, current, tidy⟩ := ih
      obtain ⟨holds', serial', current', tidy'⟩ := (step_result stepped).serial serial current
      refine ⟨holds', serial', current', fun undisturbed => ?_⟩
      obtain ⟨before, last⟩ := List.forall_mem_append.mp undisturbed
      exact tidy' (List.forall_mem_singleton.mp last) (tidy before)

/-- The bytes that an action puts on a connection. -/
def carried (connection : ℕ) : LineAction → List UInt8
  | .connect _ => []
  | .part other bytes => if other = connection then bytes else []
  | .bare other => if other = connection then [ReceiveRequest.ok.code] else []

/-- The bytes that a connection carries. -/
def stream (connection : ℕ) (trace : List (Step ι)) : List UInt8 :=
  (emissions trace).flatMap (carried connection)

/-- The connection that a hold has written to. -/
def Hold.connection? (hold : Hold ι) : Option ℕ :=
  hold.pieces.head?.map Prod.fst

omit [DecidableEq ι] in
/-- Making a connection puts nothing on it. -/
theorem Connected.flatMap_carried {opened : ℕ} {actions : List LineAction}
    (connected : Connected s s' opened actions) (last : LineAction) (connection : ℕ) :
    (actions ++ [last]).flatMap (carried connection) = carried connection last := by
  have none : actions.flatMap (carried connection) = [] := by
    refine List.flatMap_eq_nil_iff.mpr fun action member => ?_
    rw [connected.actions action member]
    rfl
  rw [List.flatMap_append, none, List.nil_append, List.flatMap_singleton]

/-- Without the byte of the periodic thread a connection carries what is written under the mutex. -/
theorem StepResult.carried {event : LineEvent ι} {actions : List LineAction}
    (result : StepResult o s event s' actions)
    (undisturbed : Undisturbed ⟨s, event, s', actions⟩) (connection : ℕ) :
    actions.flatMap (carried connection) = (actions.filterMap piece?).flatMap fun piece =>
      if piece.1 = connection then piece.2 else [] := by
  cases result with
  | request => rfl
  | lock => rfl
  | refused => rfl
  | wrote writes connected =>
      rw [connected.flatMap_carried, connected.filterMap_piece?]
      exact (List.flatMap_singleton _ _).symm
  | cut writes connected =>
      rw [connected.flatMap_carried, connected.filterMap_piece?]
      exact (List.flatMap_singleton _ _).symm
  | unlock => rfl
  | close => rfl
  | bridge => rfl
  | unsent => exact undisturbed.elim
  | bare => exact undisturbed.elim

/-- In a run without disturbance a connection carries what was written to it under the
mutex, in order. -/
theorem stream_eq (run : (machine o).Run start trace s) (undisturbed : ∀ t ∈ trace, Undisturbed t)
    (connection : ℕ) :
    stream connection trace = (pieces trace).flatMap fun piece =>
      if piece.1 = connection then piece.2 else [] := by
  induction run with
  | nil => rfl
  | @snoc trace s event effect earlier stepped ih =>
      obtain ⟨before, last⟩ := List.forall_mem_append.mp undisturbed
      have same := (step_result stepped).carried (List.forall_mem_singleton.mp last) connection
      rw [pieces_append, List.flatMap_append, ← ih before, ← same, stream,
        emissions_append_singleton, List.flatMap_append, stream]

omit [DecidableEq ι] in
/-- A whole frame is on its connection and on no other. -/
theorem Hold.Whole.flatMap {hold : Hold ι} (whole : hold.Whole o) (connection : ℕ) :
    (hold.pieces.flatMap fun piece => if piece.1 = connection then piece.2 else []) =
      if hold.connection? = some connection then hold.frame.bytes o else [] := by
  obtain ⟨parts, own, on⟩ := whole
  have found : hold.connection? = some own := by
    cases pieces : hold.pieces with
    | nil =>
        rw [pieces] at parts
        exact absurd parts.symm (LineFrame.parts_ne_nil o hold.frame)
    | cons piece rest =>
        rw [Hold.connection?, pieces, List.head?_cons, Option.map_some,
          on piece (pieces ▸ List.mem_cons_self)]
  have same : (hold.pieces.flatMap fun piece => if piece.1 = connection then piece.2 else []) =
      hold.pieces.flatMap fun piece => if own = connection then piece.2 else [] :=
    List.flatMap_congr fun piece member => by rw [on piece member]
  simp only [same, found, Option.some.injEq]
  by_cases here : own = connection
  · simp only [if_pos here]
    rw [LineFrame.bytes, ← parts]
    exact hold.bytes_eq
  · simp only [if_neg here]
    exact List.flatMap_eq_nil_iff.mpr fun _ _ => rfl

private theorem flatMap_ite {α β : Type} (l : List α) (p : α → Prop) [DecidablePred p]
    (f : α → List β) : (l.flatMap fun a => if p a then f a else []) =
      (l.filter fun a => decide (p a)).flatMap f := by
  induction l with
  | nil => rfl
  | cons a l ih =>
      by_cases holds : p a
      · simp [holds, ih]
      · simp [holds, ih]

/-- Whatever turns the threads take, what is written under the mutex are the frames in the order
in which it was taken for them, each from its start and as far as its thread got. If nothing has
disturbed them and no thread is at the socket, each connection carries whole frames in that
order. -/
theorem frames_never_mixed (run : (machine o).Run start trace s) :
    ∃ holds : List (Hold ι),
      (holds.map (fun hold => (hold.owner, hold.frame)) = locked trace ∧
        pieces trace = holds.flatMap Hold.pieces ∧
        ∀ hold ∈ holds, hold.bytes <+: hold.frame.bytes o) ∧
      ((∀ t ∈ trace, Undisturbed t) → s.holder = none → ∀ connection,
        stream connection trace =
          (holds.filter fun hold => hold.connection? = some connection).flatMap fun hold =>
            hold.frame.bytes o) := by
  obtain ⟨holds, serial, current, tidy⟩ := serial_of_run run
  refine ⟨holds, ⟨serial.order, serial.output, serial.sound⟩, fun undisturbed free connection => ?_⟩
  have whole := (tidy undisturbed).finished free
  rw [stream_eq run undisturbed, serial.output, List.flatMap_assoc,
    List.flatMap_congr fun hold member => (whole hold member).flatMap connection]
  exact flatMap_ite holds _ _

-- The socket is closed in the middle of a frame, and the next connection begins with its rest.
example :
    stream 1 (traceOf (machine .little) (start : Line Unit)
      [.request () (.clbkCmd .requestvote [7]), .lock (), .write () true 1, .close,
        .write () true 4, .write () true 1]) =
      ByteOrder.little.bytes MessageType.requestvote.code ++ [7] := by
  decide

/-- A thread comes with a RequestVote, and another with a response, which takes the mutex first. -/
def twoFrames : List (LineEvent Bool) :=
  [.request false (.clbkCmd .requestvote [7]), .request true (.information .ok none none),
    .lock true, .write true true 1, .unlock true,
    .lock false, .write false true 1, .write false true 4, .write false true 1, .unlock false]

/-- Two threads come at the same time; their frames are on the connection one after the
other. -/
theorem two_frames_not_mixed :
    (stateOf (machine .little) start twoFrames).holder = none ∧
    ∃ holds : List (Hold Bool),
      holds.map (fun hold => (hold.owner, hold.frame)) =
          [(true, .information .ok none none), (false, .clbkCmd .requestvote [7])] ∧
      ∀ connection, stream connection (traceOf (machine .little) start twoFrames) =
        (holds.filter fun hold => hold.connection? = some connection).flatMap fun hold =>
          hold.frame.bytes .little := by
  have undisturbed : ∀ t ∈ traceOf (machine .little) (start : Line Bool) twoFrames,
      Undisturbed t := by
    repeat' first
      | exact List.forall_mem_nil _
      | refine List.forall_mem_cons.mpr ⟨?_, ?_⟩
    all_goals first | trivial | exact nofun
  obtain ⟨holds, ⟨order, -, -⟩, whole⟩ :=
    frames_never_mixed (run_traceOf (machine .little) (start : Line Bool) twoFrames rfl)
  exact ⟨rfl, holds, order, whole undisturbed rfl⟩

end Line

end Tcp

end CppRaft
