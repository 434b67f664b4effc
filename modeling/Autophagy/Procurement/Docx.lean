/-
# Autophagy.Procurement.Docx — a Word draft is filled and read back.

`procure_docx.py`, and of `procure_generate.py` and `procure_cli.py` what drafts in that format go through. A document
is its tree of elements. Four functions look at its text, each in its own way: `_coalesce_runs` joins neighbouring
runs of one format, `_tokens` finds placeholders in the text of a paragraph, `_replace` fills them in one text node
after the other, and `verify` reads all texts back with a line break between them.

Writing a document and reading it again is the work of the XML library, which refuses what is no character of XML and
folds line ends.
-/
import Autophagy.Python.Dict
import Autophagy.Python.Text
import Autophagy.Text.Placeholder

namespace Autophagy.Procurement

open Autophagy.Python Autophagy.Text

/-! ## §1 — Trees -/

/-- An element without its children; an absent text is the empty one. -/
structure Element where
  tag : Str
  attrib : Dict Str Str
  text : Str
  tail : Str
  deriving DecidableEq

/-- Elements next to each other, each with its children. -/
inductive Elements
  | nil
  | cons (element : Element) (children next : Elements)
  deriving DecidableEq

/-- A document: its root and what is in it. -/
structure Document where
  root : Element
  children : Elements
  deriving DecidableEq

/-- `{W_NS}name` -/
def wordTag (name : Str) : Str := Str.of "\x7bhttp://schemas.openxmlformats.org/wordprocessingml/2006/main\x7d" ++ name

def pTag : Str := wordTag "p"

def rTag : Str := wordTag "r"

def tTag : Str := wordTag "t"

def rPrTag : Str := wordTag "rPr"

/-- `{XML_NS}space` -/
def spaceAttribute : Str := Str.of "\x7bhttp://www.w3.org/XML/1998/namespace\x7dspace"

namespace Elements

def size : Elements → Nat
  | .nil => 0
  | .cons _ children next => children.size + next.size + 1

/-- `findall(".//w:t")`: the text of each text node, in order. -/
def texts : Elements → List Str
  | .nil => []
  | .cons e children next => (if e.tag = tTag then [e.text] else []) ++ children.texts ++ next.texts

/-- `findall(".//w:p")`: the texts of each paragraph, in order. -/
def paragraphs : Elements → List (List Str)
  | .nil => []
  | .cons e children next => (if e.tag = pTag then [children.texts] else []) ++ children.paragraphs ++ next.paragraphs

/-- `find("w:rPr")`, with what is in it. -/
def find (tag : Str) : Elements → Option (Element × Elements)
  | .nil => none
  | .cons e children next => if e.tag = tag then some (e, children) else next.find tag

/-- Every element at the top has one of the tags. -/
def allTags (tags : List Str) : Elements → Bool
  | .nil => true
  | .cons e _ next => e.tag ∈ tags && next.allTags tags

/-- `itertext()`, its empty texts included. -/
def iterText : Elements → List Str
  | .nil => []
  | .cons e children next => [e.text] ++ children.iterText ++ [e.tail] ++ next.iterText

end Elements

/-! ## §2 — Joining runs -/

namespace Elements

/-- `_text_run` -/
def isTextRun (children : Elements) : Bool := children.allTags [rPrTag, tTag]

/-- `_coalesce_runs` joins these two; equal formats are equal elements. -/
def joins (e : Element) (children : Elements) (e' : Element) (children' : Elements) : Bool :=
  e.tag = rTag && e'.tag = rTag && children.find rPrTag = children'.find rPrTag &&
    (children.isTextRun && children'.isTextRun) && ((children.find tTag).isSome && (children'.find tTag).isSome)

/-- The text of the first text node at the top. -/
def firstText (children : Elements) : Str := ((children.find tTag).map fun found => found.1.text).getD []

/-- `target.text = (target.text or "") + addition` -/
def appendText (addition : Str) : Elements → Elements
  | .nil => .nil
  | .cons e children next =>
    if e.tag = tTag then .cons { e with text := e.text ++ addition } children next
    else .cons e children (next.appendText addition)

/-- The loop of `_coalesce_runs`, from a run on. -/
def joinFrom (e : Element) (children : Elements) : Elements → Elements
  | .nil => .cons e children .nil
  | .cons e' children' next =>
    if joins e children e' children' then joinFrom e (children.appendText children'.firstText) next
    else .cons e children (joinFrom e' children' next)

/-- `_coalesce_runs`, in one paragraph. -/
def joinRuns : Elements → Elements
  | .nil => .nil
  | .cons e children next => joinFrom e children next

theorem size_appendText (addition : Str) (children : Elements) : (children.appendText addition).size = children.size := by
  induction children with
  | nil => rfl
  | cons e children next _ ih =>
    rw [appendText]
    split
    · rfl
    · simp only [size, ih]

theorem size_joinFrom (e : Element) (children rest : Elements) :
    (joinFrom e children rest).size ≤ (Elements.cons e children rest).size := by
  induction rest generalizing e children with
  | nil => exact le_rfl
  | cons e' children' next _ ih =>
    rw [joinFrom]
    split
    · have h := ih e (children.appendText children'.firstText)
      simp only [size, size_appendText] at h ⊢
      omega
    · have h := ih e' children'
      simp only [size] at h ⊢
      omega

theorem size_joinRuns (children : Elements) : children.joinRuns.size ≤ children.size := by
  cases children with
  | nil => exact le_rfl
  | cons e children next => exact size_joinFrom e children next

/-- One round of `_coalesce_runs`: only the children of a paragraph are joined. -/
def joinIn (e : Element) (children : Elements) : Elements := if e.tag = pTag then children.joinRuns else children

theorem size_joinIn (e : Element) (children : Elements) : (joinIn e children).size ≤ children.size := by
  unfold joinIn
  split
  · exact size_joinRuns children
  · exact le_rfl

/-- `_coalesce_runs`: an outer paragraph comes before those in it. -/
def coalesce : Elements → Elements
  | .nil => .nil
  | .cons e children next => .cons e (coalesce (joinIn e children)) (coalesce next)
termination_by elements => elements.size
decreasing_by
  · have h := size_joinIn e children
    simp only [size]
    omega
  · simp only [size]
    omega

end Elements

def coalesceRuns (document : Document) : Document := { document with children := document.children.coalesce }

/-! ## §3 — Filling -/

/-- `{1,40}` -/
def nameLimit : Nat := 40

/-- `fields.get(match[1].strip(), match[0])` -/
def fieldValue (fields : Dict Str Str) (name : Str) : Str := (fields.get? (strip name)).getD (literal name)

/-- `PLACEHOLDER.sub` in one text. -/
def fillText (fields : Dict Str Str) (text : Str) : Str := substitute nameLimit (fieldValue fields) text

/-- The loop of `_replace`. -/
def fillNode (fields : Dict Str Str) (e : Element) : Element :=
  let filled := fillText fields e.text
  if filled.head?.any isSpace || filled.getLast?.any isSpace then
    { e with text := filled, attrib := e.attrib.set spaceAttribute (Str.of "preserve") }
  else { e with text := filled }

/-- A function of elements on every element of a tree. -/
def Elements.map (f : Element → Element) : Elements → Elements
  | .nil => .nil
  | .cons e children next => .cons (f e) (children.map f) (next.map f)

/-- `_replace` -/
def replace (fields : Dict Str Str) (document : Document) : Document :=
  { document with children := document.children.map fun e => if e.tag = tTag then fillNode fields e else e }

/-- `_tokens` -/
def tokens (document : Document) : List Str :=
  document.children.paragraphs.foldl (fun found texts =>
    (slots nameLimit texts.flatten).foldl (fun found name =>
      if strip name ≠ [] ∧ strip name ∉ found then found ++ [strip name] else found) found) []

/-! ## §4 — Writing and reading back -/

/-- The characters of XML. -/
def isXmlChar (c : Nat) : Bool :=
  c = 0x09 || c = 0x0a || c = 0x0d || (0x20 ≤ c && c ≤ 0xd7ff) || (0xe000 ≤ c && c ≤ 0xfffd) ||
    (0x10000 ≤ c && c ≤ 0x10ffff)

def foldElement (e : Element) : Element :=
  { e with text := universalNewlines e.text, tail := universalNewlines e.tail }

/-- `text_content`, before its texts are joined. -/
def Document.pieces (document : Document) : List Str :=
  (document.root.text :: document.children.iterText).filter (· ≠ [])

/-- What is read where the document was written: nothing where a text is no text of XML. -/
def readBack (document : Document) : Option Document :=
  if document.pieces.all fun text => text.all isXmlChar then
    some ⟨foldElement document.root, document.children.map foldElement⟩
  else none

/-- `fill`, with the document that is read from its output. -/
def fill (document : Document) (fields : Dict Str Str) : Option Document :=
  readBack (replace fields (coalesceRuns document))

/-- `text_content` -/
def textContent (document : Document) : Str := List.intercalate [0x0a] document.pieces

/-! ## §5 — Generating -/

/-- A problem that `verify` finds. -/
inductive Problem
  | left (name : Str)
  | absent (field value : Str)
  deriving DecidableEq

/-- `verify` -/
def verify (document : Document) (fields : Dict Str Str) : Except (List Problem) (List Str) :=
  let text := textContent document
  let problems := (slots nameLimit text).map .left ++
    (fields.members.filter fun m => ¬ m.2 <:+: text).map fun m => .absent m.1 m.2
  if problems = [] then .ok (fields.keys.mergeSort fun a b => a ≤ b) else .error problems

/-- `AUTO_FIELDS` -/
def autoFields : List Str := ["일자"]

/-- `missing_fields` -/
def missingFields (placeholders : List Str) (answers : Dict Str Str) : List Str :=
  placeholders.filter fun f => f ∉ answers.keys ∧ ¬ (f ∈ autoFields ∧ f ∈ placeholders)

/-- `_resolved_fields` -/
def resolvedFields (placeholders : List Str) (answers : Dict Str Str) (today : Str) : Dict Str Str :=
  (if Str.of "일자" ∈ placeholders then Dict.empty.set (Str.of "일자") today else Dict.empty).update answers.members

/-- How `_generate` ends other than with a draft. -/
inductive GenerateFault
  | refused (missing : List Str)
  | invalidDocument
  | verifyFailed (problems : List Problem)
  deriving DecidableEq

/-- `_generate`: the draft, and the fields it reports as verified. -/
def generate (document : Document) (placeholders : List Str) (answers : Dict Str Str) (today : Str) :
    Except GenerateFault (Document × List Str) :=
  let missing := missingFields placeholders answers
  if missing ≠ [] then .error (.refused missing)
  else
    let fields := resolvedFields placeholders answers today
    match fill document fields with
    | none => .error .invalidDocument
    | some draft =>
      match verify draft fields with
      | .error problems => .error (.verifyFailed problems)
      | .ok names => .ok (draft, names)

end Autophagy.Procurement
