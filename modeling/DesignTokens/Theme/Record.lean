import DesignTokens.Theme.Error

/-!
Records: documents read against a schema. Every declared field must be there with its type; what the
schema does not declare is kept beside the fields and written behind them.
-/

namespace DesignTokens.Theme

inductive Part where
  | text (value : String)
  | number (value : Binary64)
  | record (declared : List (String × Part)) (extra : List (String × Document))

/-- The declared fields in the order of the schema; the first one that was not met is reported. -/
def complete : List (String × Schema) → Entries Part → Except ShapeError (Entries Part)
  | [], _ => .ok []
  | (name, _) :: rest, met =>
      match met.value? name with
      | none => .error (.missingField name)
      | some part =>
          match complete rest met with
          | .error e => .error e
          | .ok declared => .ok ((name, part) :: declared)

mutual

def Schema.read : Schema → Document → Except ShapeError Part
  | .text, .text s => .ok (.text s)
  | .number, .number n => .ok (.number n.toBinary64)
  | .record _ fields, .object entries =>
      match readEntries fields entries with
      | .error e => .error e
      | .ok (met, extra) =>
          match complete fields met with
          | .error e => .error e
          | .ok declared => .ok (.record declared extra)
  | expected, found => .error (.mistyped found expected)

/-- Entries in the order of the document, those of declared fields apart from the others. The first
mistyped one ends the reading. -/
def readEntries (fields : List (String × Schema)) :
    List (String × Document) → Except ShapeError (Entries Part × Entries Document)
  | [] => .ok ([], [])
  | (name, value) :: rest =>
      match Entries.value? name fields with
      | none =>
          match readEntries fields rest with
          | .error e => .error e
          | .ok (met, extra) => .ok (met, (name, value) :: extra)
      | some schema =>
          match schema.read value with
          | .error e => .error e
          | .ok part =>
              match readEntries fields rest with
              | .error e => .error e
              | .ok (met, extra) => .ok ((name, part) :: met, extra)

end

namespace Part

mutual

def toDocument : Part → Document
  | .text s => .text s
  | .number x => if x.isFinite then .number (.binary x) else .null
  | .record declared extra => .object (declaredToDocuments declared ++ extra)

def declaredToDocuments : List (String × Part) → List (String × Document)
  | [] => []
  | (name, part) :: rest => (name, part.toDocument) :: declaredToDocuments rest

end

def field? (name : String) : Part → Option Part
  | .record declared _ => Entries.value? name declared
  | _ => none

def text? : Part → Option String
  | .text s => some s
  | _ => none

mutual

/-- Equality of parts: numbers by value, and what is not declared as documents. -/
def same : Part → Part → Bool
  | .text a, .text b => a = b
  | .number x, .number y => x.sameValue y
  | .record a extra, .record b others =>
      sameDeclared a b && (Document.object extra).same (.object others)
  | _, _ => false

def sameDeclared : List (String × Part) → List (String × Part) → Bool
  | [], [] => true
  | (a, part) :: as, (b, other) :: bs => a = b && same part other && sameDeclared as bs
  | _, _ => false

end

end Part

end DesignTokens.Theme
