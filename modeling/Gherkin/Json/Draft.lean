import Gherkin.Json.Token
import Gherkin.Json.Value

/-
  Drafts: what a JSON text says as far as it can be read. Where the text stops being JSON a draft
  has a fault, and nothing follows it. A decoder that walks a draft from left to right therefore
  meets the first thing wrong with the text, be it a fault or a value of the wrong kind.
-/

namespace Gherkin.Json

/-- A JSON text as far as it could be read. In an object, a member without a key is a fault in the
place of a key. -/
inductive Draft where
  | null
  | bool (b : Bool)
  | number (n : Number)
  | string (s : String)
  | array (items : List Draft)
  | object (members : List (Option String × Draft))
  | fault

namespace Draft

mutual

/-- The draft of a value. -/
def ofJson : Json → Draft
  | .null => .null
  | .bool b => .bool b
  | .number n => .number n
  | .string s => .string s
  | .array vs => .array (ofItems vs)
  | .object ms => .object (ofMembers ms)

/-- The drafts of the items of an array. -/
def ofItems : List Json → List Draft
  | [] => []
  | v :: vs => ofJson v :: ofItems vs

/-- The drafts of the members of an object. -/
def ofMembers : List (String × Json) → List (Option String × Draft)
  | [] => []
  | (k, v) :: ms => (some k, ofJson v) :: ofMembers ms

end

mutual

/-- The draft is that of a value. -/
def sound : Draft → Bool
  | .array items => soundItems items
  | .object members => soundMembers members
  | .fault => false
  | _ => true

/-- Every item of an array is sound. -/
def soundItems : List Draft → Bool
  | [] => true
  | d :: ds => sound d && soundItems ds

/-- Every member of an object has a key and is sound. -/
def soundMembers : List (Option String × Draft) → Bool
  | [] => true
  | (k, d) :: ms => k.isSome && sound d && soundMembers ms

end

/-- A container that is still open, with what it holds so far, last first. An open object waits for
the value of a key, or for a key. -/
inductive Frame where
  | array (before : List Draft)
  | object (before : List (Option String × Draft)) (key : Option String)

/-- The container with a last item or value. -/
def Frame.plug (d : Draft) : Frame → Draft
  | array before => .array (d :: before).reverse
  | object before key => .object ((key, d) :: before).reverse

/-- What was read when the reading ends with `d` inside the open containers, innermost first. -/
def abandon (d : Draft) (frames : List Frame) : Draft := frames.foldl Frame.plug d

/-- Containers are nested at most this deep. -/
def depthLimit : Nat := 127

/-- How far a reading has come. -/
inductive Reading where
  /-- A value comes next. -/
  | value (frames : List Frame)
  /-- An array was opened: its first item comes next, or its end. -/
  | openedArray (frames : List Frame)
  /-- An object was opened: its first key comes next, or its end. -/
  | openedObject (frames : List Frame)
  /-- A key comes next. -/
  | key (before : List (Option String × Draft)) (frames : List Frame)
  /-- The colon after a key comes next. -/
  | colon (before : List (Option String × Draft)) (key : String) (frames : List Frame)
  /-- A value is complete. -/
  | placed (d : Draft) (frames : List Frame)
  /-- The text stopped being JSON. -/
  | stopped (d : Draft)
  /-- Something follows a complete document. -/
  | excess (d : Draft)

/-- Reads a token where a value has to come. -/
def Reading.startValue (frames : List Frame) : Token → Reading
  | .null => placed .null frames
  | .bool b => placed (.bool b) frames
  | .number n => placed (.number n) frames
  | .string s => placed (.string s) frames
  | .openArray =>
    if frames.length < depthLimit then openedArray frames else stopped (abandon .fault frames)
  | .openObject =>
    if frames.length < depthLimit then openedObject frames else stopped (abandon .fault frames)
  | _ => stopped (abandon .fault frames)

/-- Reads a token where a key has to come. -/
def Reading.startKey (before : List (Option String × Draft)) (frames : List Frame) :
    Token → Reading
  | .string k => colon before k frames
  | _ => stopped (abandon .fault (.object before none :: frames))

/-- Reads a token. -/
def Reading.next : Reading → Token → Reading
  | value frames, t => startValue frames t
  | openedArray frames, .closeArray => placed (.array []) frames
  | openedArray frames, t => startValue (.array [] :: frames) t
  | openedObject frames, .closeObject => placed (.object []) frames
  | openedObject frames, t => startKey [] frames t
  | key before frames, t => startKey before frames t
  | colon before k frames, .colon => value (.object before (some k) :: frames)
  | colon before k frames, _ => stopped (abandon .fault (.object before (some k) :: frames))
  | placed d [], _ => excess d
  | placed d (.array before :: frames), .comma => value (.array (d :: before) :: frames)
  | placed d (.array before :: frames), .closeArray =>
    placed (.array (d :: before).reverse) frames
  | placed d (.array before :: frames), _ =>
    stopped (abandon .fault (.array (d :: before) :: frames))
  | placed d (.object before k :: frames), .comma => key ((k, d) :: before) frames
  | placed d (.object before k :: frames), .closeObject =>
    placed (.object ((k, d) :: before).reverse) frames
  | placed d (.object before k :: frames), _ =>
    stopped (abandon .fault (.object ((k, d) :: before) none :: frames))
  | stopped d, _ => stopped d
  | excess d, _ => excess d

/-- What was read when the text ends. -/
def Reading.finish : Reading → Draft
  | value frames => abandon .fault frames
  | openedArray frames => abandon .fault (.array [] :: frames)
  | openedObject frames => abandon .fault (.object [] none :: frames)
  | key before frames => abandon .fault (.object before none :: frames)
  | colon before k frames => abandon .fault (.object before (some k) :: frames)
  | placed d [] => d
  | placed d (.array before :: frames) => abandon .fault (.array (d :: before) :: frames)
  | placed d (.object before k :: frames) =>
    abandon .fault (.object ((k, d) :: before) none :: frames)
  | stopped d => d
  | excess d => d

/-- Something follows a complete document. -/
def Reading.isExcess : Reading → Bool
  | excess _ => true
  | _ => false

/-- Reads a text. -/
def read (text : String) : Reading := (tokens text.toList).foldl Reading.next (.value [])

end Draft

end Gherkin.Json
