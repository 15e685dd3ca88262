import Seismogram.Json.Token

/-!
# Reading JSON

The grammatical half of strict JSON. A reader takes one token at a time and keeps the containers
that are still open, so it needs no recursion of its own and reads values of any depth.
-/

namespace Seismogram.Json

/-- A container that is being read: what it holds so far, last first. -/
inductive Opened where
  | array (items : List Value)
  | object (members : List (Text × Value)) (name : Text)

/-- What has been read, and so what may follow; the innermost open container comes first. -/
inductive Reader where
  /-- A value has to follow. -/
  | atValue (outer : List Opened)
  /-- An array was just opened. -/
  | atItemOrEnd (outer : List Opened)
  /-- An object was just opened. -/
  | atMemberOrEnd (outer : List Opened)
  /-- The name of another member has to follow. -/
  | atName (members : List (Text × Value)) (outer : List Opened)
  /-- A colon has to follow. -/
  | atColon (members : List (Text × Value)) (name : Text) (outer : List Opened)
  /-- A value is complete. -/
  | after (value : Value) (outer : List Opened)

namespace Reader

/-- The reader after a token that begins a value. -/
def beginValue? (outer : List Opened) : Token → Option Reader
  | .nullWord => some (.after .null outer)
  | .trueWord => some (.after (.bool true) outer)
  | .falseWord => some (.after (.bool false) outer)
  | .number n => some (.after (.number n) outer)
  | .text t => some (.after (.text t) outer)
  | .beginArray => some (.atItemOrEnd outer)
  | .beginObject => some (.atMemberOrEnd outer)
  | _ => none

/-- The reader after one more token, or `none` if the token cannot stand there. -/
def step : Reader → Token → Option Reader
  | .atValue outer, token => beginValue? outer token
  | .atItemOrEnd outer, .endArray => some (.after (.array []) outer)
  | .atItemOrEnd outer, token => beginValue? (.array [] :: outer) token
  | .atMemberOrEnd outer, .endObject => some (.after (.object []) outer)
  | .atMemberOrEnd outer, .text t => some (.atColon [] t outer)
  | .atName members outer, .text t => some (.atColon members t outer)
  | .atColon members name outer, .colon => some (.atValue (.object members name :: outer))
  | .after v (.array items :: outer), .comma => some (.atValue (.array (v :: items) :: outer))
  | .after v (.array items :: outer), .endArray =>
    some (.after (.array (v :: items).reverse) outer)
  | .after v (.object members name :: outer), .comma =>
    some (.atName ((name, v) :: members) outer)
  | .after v (.object members name :: outer), .endObject =>
    some (.after (.object ((name, v) :: members).reverse) outer)
  | _, _ => none

def result? : Reader → Option Value
  | .after v [] => some v
  | _ => none

def steps : Reader → List Token → Option Reader
  | r, [] => some r
  | r, token :: rest =>
    match r.step token with
    | some r => r.steps rest
    | none => none

end Reader

def Value.ofTokens? (tokens : List Token) : Option Value :=
  match (Reader.atValue []).steps tokens with
  | some r => r.result?
  | none => none

/-- The value of a JSON text: one value, with nothing but blanks around it. -/
def Value.ofText? (text : String) : Option Value :=
  match Token.ofText text.toList with
  | some tokens => Value.ofTokens? tokens
  | none => none

end Seismogram.Json
