import Chronicle.Chat.Transcript

/-!
# Hosts

A host keeps the open chat, in memory or in a file, and serves calls on it. A host over a file
writes the whole chat to the file after every change. Single kinds of calls may be refused.
-/

namespace Chronicle

inductive CallKind where
  | conversationId | length | message | messages | setMessage | readStore | writeStore
deriving DecidableEq, Repr

namespace CallKind

def name : CallKind → String
  | conversationId => "conversation_id"
  | length => "len"
  | message => "message"
  | messages => "messages"
  | setMessage => "set_message"
  | readStore => "variables"
  | writeStore => "replace_variables"

def refusal (k : CallKind) : HostError :=
  match k with
  | readStore | writeStore => .store (k.name ++ " refused")
  | _ => .storage (k.name ++ " refused")

end CallKind

/-- The open chat, the file in which it is kept if there is one, and the calls that are refused. -/
structure Host where
  chat : Transcript
  path? : Option String
  disk : Disk
  refused : List CallKind
deriving Repr

namespace Host

def inMemory (chat : Transcript) : Host := ⟨chat, none, .empty, []⟩

/-- A host over a file. A missing file is an empty chat named after it. -/
def openFile (disk : Disk) (path : String) : Except HostError Host :=
  match disk.read path with
  | .ok s =>
    match Transcript.parse? s with
    | some chat => .ok ⟨chat, some path, disk, []⟩
    | none => .error (.file (.unparsable path))
  | .error .missing => .ok ⟨.empty ((Disk.stem path).getD "chat"), some path, disk, []⟩
  | .error e => .error (.file (.unreadable path e))

def name (h : Host) : String := if h.path?.isSome then "file" else "in_memory"

/-- Writes the chat to its file, after the directories above it that are missing. -/
def save (h : Host) : Except HostError Unit × Host :=
  match h.path? with
  | none => (.ok (), h)
  | some path =>
    match h.disk.makeParent path with
    | (.error e, disk) => (.error (.file (.noDirectory e)), { h with disk })
    | (.ok (), disk) =>
      match disk.write path h.chat.toJson.pretty with
      | .ok disk => (.ok (), { h with disk })
      | .error e => (.error (.file (.unwritable e)), { h with disk })

/-- Changes the chat and saves it. A change that fails is not saved, but what it has done stays. -/
def update (h : Host) (f : Transcript → Except HostError α × Transcript) : Except HostError α × Host :=
  match f h.chat with
  | (.error e, chat) => (.error e, { h with chat })
  | (.ok a, chat) =>
    match save { h with chat } with
    | (.ok (), h) => (.ok a, h)
    | (.error e, h) => (.error e, h)

def guarded (k : CallKind) (call : Host → Except HostError α × Host) (h : Host) : Except HostError α × Host :=
  if h.refused.contains k then (.error k.refusal, h) else call h

def setMessage (i : Nat) (text : String) (h : Host) : Except HostError Unit × Host :=
  h.update fun c => c.update i fun m => (.ok (), m.setText text)

def writeStore (v : Json) (h : Host) : Except HostError Unit × Host :=
  h.update fun c => (.ok (), { c with stored := v })

def push (role : Role) (text : String) (h : Host) : Except HostError Nat × Host :=
  h.update fun c => (.ok c.messages.length, c.push role text)

def addSwipe (i : Nat) (text : String) (h : Host) : Except HostError Nat × Host :=
  h.update fun c => c.update i fun m =>
    let m := m.addSwipe text
    (.ok m.activeIndex, m)

/-- Makes a swipe active and tells whether there is one. -/
def selectSwipe (i k : Nat) (h : Host) : Except HostError Bool × Host :=
  h.update fun c => c.update i fun m => (.ok (m.selectSwipe? k).isSome, (m.selectSwipe? k).getD m)

def requireSwipe (i k : Nat) (h : Host) : Except HostError Unit × Host :=
  h.update fun c => c.update i fun m =>
    match m.selectSwipe? k with
    | some m => (.ok (), m)
    | none => (.error (.storage s!"message {i} has no swipe {k}"), m)

def pop (h : Host) : Except HostError (Option Message) × Host :=
  h.update fun c => (.ok c.messages.getLast?, { c with messages := c.messages.dropLast })

def switchTo (chat : Transcript) (h : Host) : Except HostError Unit × Host := h.update fun _ => (.ok (), chat)

end Host

end Chronicle
