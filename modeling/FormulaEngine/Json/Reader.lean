import FormulaEngine.Json.Token

/-!
# Reading JSON

A reader takes tokens one at a time. It keeps the arrays and objects that are still open, innermost
first, and what may come next.
-/

namespace FormulaEngine.Json

/-- An open array or object with its parts so far, the latest first. -/
inductive Frame where
  | array (items : List Json)
  | object (members : List (Option String × Json))
  /-- An object in which the value of a member is still to come. -/
  | member (members : List (Option String × Json)) (name : Option String)

inductive Awaiting where
  | value
  | itemOrEnd
  | nameOrEnd
  | name
  | colon
  | commaOrEnd
  | nothing (document : Json)

structure Reader where
  frames : List Frame
  awaiting : Awaiting

namespace Reader

def initial : Reader := ⟨[], .value⟩

def put (j : Json) : List Frame → Option Reader
  | [] => some ⟨[], .nothing j⟩
  | .array items :: rest => some ⟨.array (j :: items) :: rest, .commaOrEnd⟩
  | .member members name :: rest => some ⟨.object ((name, j) :: members) :: rest, .commaOrEnd⟩
  | .object _ :: _ => none

def objectOf (members : List (Option String × Json)) : Json :=
  match members.mapM fun member => member.1.map fun name => (name, member.2) with
  | some named => .object named
  | none => .unreadable

def endArray : List Frame → Option Reader
  | .array items :: rest => put (.array items.reverse) rest
  | _ => none

def endObject : List Frame → Option Reader
  | .object members :: rest => put (objectOf members.reverse) rest
  | _ => none

/-- Takes a token where a value may begin. -/
def beginValue (frames : List Frame) : Token → Option Reader
  | .null => put .null frames
  | .bool b => put (.bool b) frames
  | .number n => put (.number n) frames
  | .string (some s) => put (.string s) frames
  | .string none => put .unreadable frames
  | .beginArray => some ⟨.array [] :: frames, .itemOrEnd⟩
  | .beginObject => some ⟨.object [] :: frames, .nameOrEnd⟩
  | _ => none

/-- Takes a token where the name of a member may stand. -/
def takeName : List Frame → Token → Option Reader
  | .object members :: rest, .string name => some ⟨.member members name :: rest, .colon⟩
  | _, _ => none

/-- Takes a token after a value in an array or an object. -/
def afterValue : List Frame → Token → Option Reader
  | .array items :: rest, .comma => some ⟨.array items :: rest, .value⟩
  | .object members :: rest, .comma => some ⟨.object members :: rest, .name⟩
  | frames, .endArray => endArray frames
  | frames, .endObject => endObject frames
  | _, _ => none

def step (r : Reader) (token : Token) : Option Reader :=
  match r.awaiting, token with
  | .value, token => beginValue r.frames token
  | .itemOrEnd, .endArray => endArray r.frames
  | .itemOrEnd, token => beginValue r.frames token
  | .nameOrEnd, .endObject => endObject r.frames
  | .nameOrEnd, token => takeName r.frames token
  | .name, token => takeName r.frames token
  | .colon, .colon => some ⟨r.frames, .value⟩
  | .colon, _ => none
  | .commaOrEnd, token => afterValue r.frames token
  | .nothing _, _ => none

def run (r : Reader) : List Token → Option Reader
  | [] => some r
  | token :: rest => do
    let r ← r.step token
    r.run rest

def document? (r : Reader) : Option Json :=
  match r.awaiting with
  | .nothing j => some j
  | _ => none

end Reader

def read? (text : List Char) : Option Json := do
  let tokens ← Token.scan text
  let reader ← Reader.initial.run tokens
  reader.document?

def parse? (text : String) : Option Json := read? text.toList

end FormulaEngine.Json
