import Kopete.Lib.Dom

/-!
# XML streams — a reader that is fed as data arrives

The reader reports one token after the other. Where the data runs out before the document
ends it says so, once, and is at its end until more data comes. A run of characters is
reported here a character at a time.

Main results:

* `flatten_arrivals` — what the segments of a stream bring is all of it, however it is cut.
-/

namespace XmlStream

abbrev Text := List Char

/-- `QXmlStreamReader::TokenType`. -/
inductive TokenType where
  | invalid | startDocument | startElement | endElement | characters | comment
  deriving DecidableEq

/-- What the reader reports; the last is that the data ran out. -/
inductive Token where
  | startDocument
  | startElement (qualifiedName : String) (attributes : List (String × Text))
  | endElement (qualifiedName : String)
  | character (c : Char)
  | comment
  | prematureEnd
  deriving DecidableEq

namespace Token

def type : Token → TokenType
  | .startDocument => .startDocument
  | .startElement _ _ => .startElement
  | .endElement _ => .endElement
  | .character _ => .characters
  | .comment => .comment
  | .prematureEnd => .invalid

def qualifiedName : Token → String
  | .startElement qualifiedName _ | .endElement qualifiedName => qualifiedName
  | _ => ""

def attributes : Token → List (String × Text)
  | .startElement _ attributes => attributes
  | _ => []

def text : Token → Text
  | .character c => [c]
  | _ => []

end Token

/-- `QXmlStreamAttributes::value`, empty where there is no such attribute. -/
def value (attributes : List (String × Text)) (name : String) : Text :=
  ((attributes.find? (·.1 = name)).map (·.2)).getD []

mutual

/-- The tokens of a node. -/
def tokens : Dom.Node Char → List Token
  | .element name attributes children =>
    .startElement name attributes :: (tokensOfAll children ++ [.endElement name])
  | .text s => s.map .character

def tokensOfAll : List (Dom.Node Char) → List Token
  | [] => []
  | n :: ns => tokens n ++ tokensOfAll ns

end

/-! ## The reader -/

/-- `QXmlStreamReader`: the tokens that can be read before the data runs out, the report
that it has among them. After an error it reports nothing any more. -/
structure Reader where
  coming : List Token
  failed : Bool
  deriving DecidableEq

namespace Reader

def atEnd (r : Reader) : Bool := r.coming.isEmpty

theorem atEnd_iff {r : Reader} : r.atEnd ↔ r.coming = [] := List.isEmpty_iff

/-- Data arrives, and with it tokens. -/
def addData (r : Reader) (ts : List Token) : Reader :=
  if r.failed then r else { r with coming := r.coming ++ ts ++ [.prematureEnd] }

/-- The loop of `readElementText`: the text, and what is left. -/
def elementText : List Token → Text × Reader
  | [] => ([], ⟨[], false⟩)
  | .character c :: ts => (c :: (elementText ts).1, (elementText ts).2)
  | .comment :: ts => elementText ts
  | .endElement _ :: ts | .prematureEnd :: ts => ([], ⟨ts, false⟩)
  -- What is not expected makes the reader fail.
  | .startElement _ _ :: _ | .startDocument :: _ => ([], ⟨[], true⟩)

/-- `QXmlStreamReader::readElementText`, at a token of the type. -/
def readElementText (type : TokenType) (r : Reader) : Text × Reader :=
  if type = .startElement then
    ((elementText r.coming).1,
      { (elementText r.coming).2 with failed := (elementText r.coming).2.failed || r.failed })
  else ([], r)

theorem length_elementText (ts : List Token) :
    (elementText ts).2.coming.length ≤ ts.length := by
  induction ts with
  | nil => exact Nat.le_refl _
  | cons t ts ih =>
    cases t with
    | character | comment => exact Nat.le_trans ih (Nat.le_succ _)
    | endElement | prematureEnd => exact Nat.le_succ _
    | startElement | startDocument => exact Nat.zero_le _

theorem length_readElementText (type : TokenType) (r : Reader) :
    (readElementText type r).2.coming.length ≤ r.coming.length := by
  unfold readElementText
  split
  · exact length_elementText r.coming
  · exact Nat.le_refl _

theorem elementText_characters (s : Text) (ts : List Token) :
    elementText (s.map Token.character ++ ts) = (s ++ (elementText ts).1, (elementText ts).2) := by
  induction s with
  | nil => rfl
  | cons c s ih =>
    rw [List.map_cons, List.cons_append, elementText, ih]
    rfl

end Reader

/-! ## Segments -/

/-- A token, and the bytes the reader needs to report it after the token before. -/
structure Piece where
  token : Token
  bytes : List UInt8

/-- The tokens whose bytes are all there, where `n` bytes are; the pieces that are left and
how many bytes of them are there. -/
def arrive : List Piece → Nat → List Token × List Piece × Nat
  | [], n => ([], [], n)
  | p :: ps, n =>
    if p.bytes.length ≤ n then
      (p.token :: (arrive ps (n - p.bytes.length)).1, (arrive ps (n - p.bytes.length)).2)
    else ([], p :: ps, n)

/-- The tokens that each segment of the bytes brings, `n` bytes being there before. -/
def arrivals (ps : List Piece) (n : Nat) : List (List UInt8) → List (List Token)
  | [] => []
  | s :: ss =>
    (arrive ps (n + s.length)).1 ::
      arrivals (arrive ps (n + s.length)).2.1 (arrive ps (n + s.length)).2.2 ss

theorem arrive_map (ps : List Piece) (n : Nat) :
    (arrive ps n).1 ++ (arrive ps n).2.1.map (·.token) = ps.map (·.token) := by
  induction ps generalizing n with
  | nil => rfl
  | cons p ps ih =>
    rw [arrive]
    split
    · rw [List.map_cons, ← ih (n - p.bytes.length)]
      rfl
    · rfl

theorem arrive_bytes (ps : List Piece) (n k : Nat) (h : n + k = (ps.flatMap (·.bytes)).length) :
    (arrive ps n).2.2 + k = ((arrive ps n).2.1.flatMap (·.bytes)).length := by
  induction ps generalizing n with
  | nil => exact h
  | cons p ps ih =>
    rw [arrive]
    rw [List.flatMap_cons, List.length_append] at h
    split
    case isTrue hLe => exact ih _ (by omega)
    case isFalse =>
      rw [List.flatMap_cons, List.length_append]
      exact h

/-- All the bytes are there. -/
theorem arrive_all {ps : List Piece} {n : Nat} (h : (ps.flatMap (·.bytes)).length ≤ n) :
    (arrive ps n).2.1 = [] := by
  induction ps generalizing n with
  | nil => rfl
  | cons p ps ih =>
    rw [List.flatMap_cons, List.length_append] at h
    rw [arrive, if_pos (by omega)]
    exact ih (by omega)

/-- **What segments bring** is the whole stream, when all its bytes have come. -/
theorem flatten_arrivals (ps : List Piece) (n : Nat) {segments : List (List UInt8)}
    (hSome : segments ≠ [])
    (hBytes : n + segments.flatten.length = (ps.flatMap (·.bytes)).length) :
    (arrivals ps n segments).flatten = ps.map (·.token) := by
  induction segments generalizing ps n with
  | nil => exact absurd rfl hSome
  | cons s ss ih =>
    rw [List.flatten_cons, List.length_append] at hBytes
    rw [arrivals, List.flatten_cons, ← arrive_map ps (n + s.length)]
    congr 1
    by_cases hRest : ss = []
    · subst hRest
      have hAll : (ps.flatMap (·.bytes)).length ≤ n + s.length := by
        rw [← hBytes, List.flatten_nil, List.length_nil]
        omega
      rw [arrive_all hAll]
      rfl
    · refine ih _ _ hRest (arrive_bytes ps _ _ ?_)
      rw [← hBytes]
      omega

end XmlStream
