import Quarry.Yaml.Plain
import Quarry.Yaml.Token

/-!
# Nodes — the tree of a settings text

A node is a scalar, a sequence or a mapping, with the tag that says what it stands for.  A tag is
written, or follows from the shape of the node and, for a plain scalar, from its text.  An alias
is a copy of the node with its anchor; inside that node the copy has no parts.

The readers work on the tokens that are left.  Their first argument bounds the number of calls.
-/

namespace Quarry.Yaml

inductive Node where
  | scalar (tag : Tag) (text : String)
  | sequence (tag : Tag) (items : List Node)
  | mapping (tag : Tag) (entries : List (Node × Node))

def Node.tag : Node → Tag
  | .scalar tag _ => tag
  | .sequence tag _ => tag
  | .mapping tag _ => tag

namespace Node

/-- The node where nothing is written. -/
def empty : Node := .scalar .null ""

/-- What is left to read: the tokens, and the nodes that have an anchor. -/
structure Reading where
  tokens : List Token
  anchors : List (String × Node) := []

abbrev Reader := StateT Reading (Except Fault)

/-- The start of the tags that are written with each handle. -/
abbrev Handles := List (String × String)

def fail {α : Type} : Reader α := StateT.lift refuse

def next? : Reader (Option Token) := return (← get).tokens.head?

def skip : Reader Unit := modify fun r => { r with tokens := r.tokens.drop 1 }

/-- One of these tokens is next. -/
def follows (tokens : List Token) : Reader Bool := do
  return match ← next? with
    | some t => tokens.contains t
    | none => false

/-- What stands before a node: an anchor and a tag. -/
structure Properties where
  anchor : Option String := none
  tag : Option String := none

/-- The tag in full. -/
def expand (handles : Handles) (handle : Option String) (rest : String) : Reader String :=
  match handle with
  | none => return rest
  | some name =>
      match handles.lookup name with
      | some start => return start ++ rest
      | none => fail

/-- The anchor and the tag of a node, in either order. -/
def properties (handles : Handles) : Reader Properties := do
  match ← next? with
  | some (.anchor name) =>
      skip
      match ← next? with
      | some (.tag handle rest) => skip; return ⟨name, ← expand handles handle rest⟩
      | _ => return ⟨name, none⟩
  | some (.tag handle rest) =>
      skip
      let tag ← expand handles handle rest
      match ← next? with
      | some (.anchor name) => skip; return ⟨name, tag⟩
      | _ => return ⟨none, tag⟩
  | _ => return ⟨none, none⟩

/-- The tag of a node whose shape means `usual`. -/
def Properties.tagOr (p : Properties) (usual : Tag) : Tag :=
  match p.tag with
  | none => usual
  | some "!" => usual
  | some text => .ofText text

/-- A scalar with its tag; a text whose tag is left open is taken as plain. -/
def Properties.scalar (p : Properties) (plain : Bool) (text : String) : Node :=
  let read := (plain && p.tag.isNone) || p.tag = some "!"
  .scalar (p.tagOr (if read then .ofPlain text.toList else .text)) text

/-- `node` is what the anchor names, which must be new. -/
def declare (p : Properties) (node : Node) : Reader Unit :=
  match p.anchor with
  | none => return
  | some name => do
      if ((← get).anchors.lookup name).isSome then fail
      else modify fun r => { r with anchors := (name, node) :: r.anchors }

/-- A node whose parts are still to be read: until then the anchor names one without parts. -/
def around {α : Type} (p : Properties) (build : List α → Node) (parts : Reader (List α)) :
    Reader Node := do
  declare p (build [])
  let node := build (← parts)
  match p.anchor with
  | none => return node
  | some name =>
      modify fun r => { r with anchors := (name, node) :: r.anchors }
      return node

/-- A part of a collection: nothing before one of the tokens in `ends`, else what `part` reads. -/
def partBefore (ends : List Token) (part : Reader Node) : Reader Node := do
  if ← follows ends then return empty else part

/-- The value after a key: nothing without a colon. -/
def valueBefore (ends : List Token) (part : Reader Node) : Reader Node := do
  if ← follows [.value] then
    skip
    partBefore ends part
  else return empty

/-- The comma before every part of a flow collection but the first. -/
def commaUnless (first : Bool) : Reader Unit := do
  if first then return
  else if ← follows [.comma] then skip
  else fail

mutual

/-- A node.  Block collections may start where `block` says so; and the items of a value may stand
without a start of their own where `bare` says so. -/
def read (handles : Handles) : (fuel : Nat) → (block bare : Bool) → Reader Node
  | 0, _, _ => fail
  | fuel + 1, block, bare => do
      match ← next? with
      | some (.alias name) =>
          skip
          match (← get).anchors.lookup name with
          | some node => return node
          | none => fail
      | _ =>
          let p ← properties handles
          match ← next?, block, bare with
          | some .item, _, true =>
              around p (.sequence (p.tagOr .sequence)) (bareItems handles fuel)
          | some (.scalar plain text), _, _ =>
              skip
              let node := p.scalar plain text
              declare p node
              return node
          | some .flowSequence, _, _ =>
              skip
              around p (.sequence (p.tagOr .sequence)) (flowItems handles fuel true)
          | some .flowMapping, _, _ =>
              skip
              around p (.mapping (p.tagOr .mapping)) (flowEntries handles fuel true)
          | some .blockSequence, true, _ =>
              skip
              around p (.sequence (p.tagOr .sequence)) (blockItems handles fuel)
          | some .blockMapping, true, _ =>
              skip
              around p (.mapping (p.tagOr .mapping)) (blockEntries handles fuel)
          | _, _, _ =>
              if p.anchor.isSome || p.tag.isSome then
                let node := p.scalar true ""
                declare p node
                return node
              else fail

/-- The items of a block sequence. -/
def blockItems (handles : Handles) : (fuel : Nat) → Reader (List Node)
  | 0 => fail
  | fuel + 1 => do
      match ← next? with
      | some .item =>
          skip
          let node ← partBefore [.item, .blockEnd] (read handles fuel true false)
          return node :: (← blockItems handles fuel)
      | some .blockEnd => skip; return []
      | _ => fail

/-- Items that are no farther in than the key before them. -/
def bareItems (handles : Handles) : (fuel : Nat) → Reader (List Node)
  | 0 => fail
  | fuel + 1 => do
      match ← next? with
      | some .item =>
          skip
          let node ← partBefore [.item, .key, .value, .blockEnd] (read handles fuel true false)
          return node :: (← bareItems handles fuel)
      | _ => return []

/-- The entries of a block mapping. -/
def blockEntries (handles : Handles) : (fuel : Nat) → Reader (List (Node × Node))
  | 0 => fail
  | fuel + 1 => do
      let ends := [.key, .value, .blockEnd]
      match ← next? with
      | some .key =>
          skip
          let k ← partBefore ends (read handles fuel true true)
          let v ← valueBefore ends (read handles fuel true true)
          return (k, v) :: (← blockEntries handles fuel)
      | some .blockEnd => skip; return []
      | _ => fail

/-- The items of a flow sequence; a key starts an item that is a mapping with one entry. -/
def flowItems (handles : Handles) : (fuel : Nat) → (first : Bool) → Reader (List Node)
  | 0, _ => fail
  | fuel + 1, first => do
      if ← follows [.flowSequenceEnd] then skip; return []
      commaUnless first
      match ← next? with
      | some .flowSequenceEnd => skip; return []
      | some .key =>
          skip
          let ends := [.comma, .flowSequenceEnd]
          let k ← partBefore (.value :: ends) (read handles fuel false false)
          let v ← valueBefore ends (read handles fuel false false)
          return .mapping .mapping [(k, v)] :: (← flowItems handles fuel false)
      | _ =>
          let node ← read handles fuel false false
          return node :: (← flowItems handles fuel false)

/-- The entries of a flow mapping; a part that is not announced as a key is a key without value. -/
def flowEntries (handles : Handles) : (fuel : Nat) → (first : Bool) → Reader (List (Node × Node))
  | 0, _ => fail
  | fuel + 1, first => do
      if ← follows [.flowMappingEnd] then skip; return []
      commaUnless first
      match ← next? with
      | some .flowMappingEnd => skip; return []
      | some .key =>
          skip
          let ends := [.comma, .flowMappingEnd]
          let k ← partBefore (.value :: ends) (read handles fuel false false)
          let v ← valueBefore ends (read handles fuel false false)
          return (k, v) :: (← flowEntries handles fuel false)
      | _ =>
          let k ← read handles fuel false false
          return (k, empty) :: (← flowEntries handles fuel false)

end

/-! ### Documents -/

/-- The handles that are always there, after those of the document. -/
def usualHandles : Handles :=
  [("!", "!"), ("!!", "tag:yaml.org,2002:")]

/-- What the directives of a document say; `versioned` when they have told the version. -/
def directives (versioned : Bool) (handles : Handles) :
    List Token → Except Fault (Handles × List Token)
  | .directive d :: tokens =>
      match d with
      | .version major =>
          if versioned || major ≠ 1 then refuse else directives true handles tokens
      | .handle name start =>
          if (handles.lookup name).isSome then refuse
          else directives versioned ((name, start) :: handles) tokens
      | .other => directives versioned handles tokens
  | tokens => .ok (handles ++ usualHandles, tokens)

/-- The root of a document, of which nothing may be left but its end. -/
def readRoot (handles : Handles) (tokens : List Token) : Except Fault Node := do
  let (node, rest) ← (read handles (2 * tokens.length + 2) true false).run { tokens }
  if rest.tokens.all (· = .documentEnd) then return node else refuse

/-- The root of the only document; `none` if there is no document. -/
def ofTokens? : List Token → Except Fault (Option Node)
  | [] => .ok none
  | tokens@(.directive _ :: _) => announced tokens
  | tokens@(.documentStart :: _) => announced tokens
  | tokens => some <$> readRoot usualHandles tokens
where
  /-- A document that starts with its mark. -/
  announced (tokens : List Token) : Except Fault (Option Node) := do
    match ← directives false [] tokens with
    | (handles, .documentStart :: tokens) =>
        match tokens with
        | [] => return none
        | .documentEnd :: rest => if rest.all (· = .documentEnd) then return none else refuse
        | .documentStart :: _ => refuse
        | .directive _ :: _ => refuse
        | _ => some <$> readRoot handles tokens
    | _ => refuse

end Node

end Quarry.Yaml
