import Jobflow.Yaml.Token

/-!
YAML documents as trees. An alias is replaced by what it names; only an alias
inside of what it names stays behind as a knot, which no reader can use.
-/

namespace Jobflow.Yaml

inductive Node where
  | scalar (style : Style) (tag : Option String) (text : String)
  | sequence (items : List Node)
  | mapping (entries : List (Node × Node))
  | knot
  deriving Repr, Inhabited

namespace Node

/-- What stands where nothing is written. -/
def empty : Node := .scalar .plain none ""

end Node

/-! ### Reading tokens -/

/-- What is left to read, the handles of tags, and what the anchors name; the
innermost open anchors name a knot. -/
structure Reading where
  tokens : List Token
  handles : List (String × String)
  anchors : List (String × Node)

/-- A step of reading that yields a node. -/
abbrev Step := Except Fault (Node × Reading)

namespace Reading

/-- The reading after the next token. -/
def drop (r : Reading) : Reading := { r with tokens := r.tokens.tail }

def bind (r : Reading) (anchor : Option String) (node : Node) : Reading :=
  match anchor with
  | some name => { r with anchors := (name, node) :: r.anchors }
  | none => r

def tagOf (r : Reading) (handle suffix : String) : Except Fault String :=
  if handle = "" then .ok suffix
  else match r.handles.find? fun binding => binding.1 = handle with
    | some binding => .ok (binding.2 ++ suffix)
    | none => .error (.undefined handle)

end Reading

/-- An anchor and a tag, in either order, each of them possibly missing. -/
structure Properties where
  anchor : Option String
  tag : Option String

def Properties.isEmpty (p : Properties) : Bool := p.anchor.isNone && p.tag.isNone

/-- The properties before a node. -/
def properties (r : Reading) : Except Fault (Properties × Reading) :=
  match r.tokens with
  | .anchor name :: .tag handle suffix :: rest => do
    return (⟨some name, some (← r.tagOf handle suffix)⟩, { r with tokens := rest })
  | .tag handle suffix :: .anchor name :: rest => do
    return (⟨some name, some (← r.tagOf handle suffix)⟩, { r with tokens := rest })
  | .anchor name :: rest => .ok (⟨some name, none⟩, { r with tokens := rest })
  | .tag handle suffix :: rest => do
    return (⟨none, some (← r.tagOf handle suffix)⟩, { r with tokens := rest })
  | _ => .ok (⟨none, none⟩, r)

/-- Whether the next token is one of these, where something may be left out. -/
def Reading.isAt (r : Reading) (ends : List Token) : Bool :=
  match r.tokens with
  | token :: _ => ends.contains token
  | [] => true

mutual

/-- The next node. In a block it may be a block itself, and as the value of a
key the items of a list need not be indented. The fuel bounds the tokens that
are looked at. -/
def node (fuel : Nat) (inBlock unindented : Bool) (r : Reading) : Step := do
  match fuel with
  | 0 => .error .misplaced
  | fuel + 1 =>
    match r.tokens with
    | .alias name :: _ =>
      match r.anchors.find? fun binding => binding.1 = name with
      | some binding => return (binding.2, r.drop)
      | none => .error (.undefined name)
    | _ =>
      let (props, r) ← properties r
      let collect (read : Reading → Step) : Step := do
        let (found, after) ← read (r.bind props.anchor .knot)
        return (found, after.bind props.anchor found)
      match r.tokens with
      | .dash :: _ =>
        if unindented then collect (looseItems fuel [])
        else if props.isEmpty then .error .misplaced
        else leave props r
      | .scalar style text :: _ =>
        let found := Node.scalar style props.tag text
        return (found, r.drop.bind props.anchor found)
      | .openBracket :: _ => collect fun r => flowItems fuel true [] r.drop
      | .openBrace :: _ => collect fun r => flowEntries fuel true [] r.drop
      | .blockSequence :: _ =>
        if inBlock then collect fun r => blockItems fuel [] r.drop
        else if props.isEmpty then .error .misplaced
        else leave props r
      | .blockMapping :: _ =>
        if inBlock then collect fun r => blockEntries fuel [] r.drop
        else if props.isEmpty then .error .misplaced
        else leave props r
      | _ => if props.isEmpty then .error .misplaced else leave props r
where
  /-- An empty node with properties. -/
  leave (props : Properties) (r : Reading) : Step :=
    let found := Node.scalar .plain props.tag ""
    .ok (found, r.bind props.anchor found)

/-- The next node, unless it is left out. -/
def nodeUnless (fuel : Nat) (ends : List Token) (inBlock unindented : Bool) (r : Reading) :
    Step := do
  match fuel with
  | 0 => .error .misplaced
  | fuel + 1 => if r.isAt ends then return (.empty, r) else node fuel inBlock unindented r

/-- The items of a list in a block; `found` are those before, the last first. -/
def blockItems (fuel : Nat) (found : List Node) (r : Reading) : Step := do
  match fuel with
  | 0 => .error .misplaced
  | fuel + 1 =>
    match r.tokens with
    | .dash :: _ =>
      let (item, r) ← nodeUnless fuel [.dash, .blockEnd] true false r.drop
      blockItems fuel (item :: found) r
    | .blockEnd :: _ => return (.sequence found.reverse, r.drop)
    | _ => .error .misplaced

/-- The items of a list that is not indented below its key. -/
def looseItems (fuel : Nat) (found : List Node) (r : Reading) : Step := do
  match fuel with
  | 0 => .error .misplaced
  | fuel + 1 =>
    match r.tokens with
    | .dash :: _ =>
      let (item, r) ← nodeUnless fuel [.dash, .key, .value, .blockEnd] true false r.drop
      looseItems fuel (item :: found) r
    | _ => return (.sequence found.reverse, r)

def blockEntries (fuel : Nat) (found : List (Node × Node)) (r : Reading) : Step := do
  match fuel with
  | 0 => .error .misplaced
  | fuel + 1 =>
    let ends := [Token.key, .value, .blockEnd]
    let entry (r : Reading) (key : Node) : Step := do
      match r.tokens with
      | .value :: _ =>
        let (value, r) ← nodeUnless fuel ends true true r.drop
        blockEntries fuel ((key, value) :: found) r
      | _ => blockEntries fuel ((key, .empty) :: found) r
    match r.tokens with
    | .key :: _ =>
      let (key, r) ← nodeUnless fuel ends true true r.drop
      entry r key
    | .value :: _ => entry r .empty
    | .blockEnd :: _ => return (.mapping found.reverse, r.drop)
    | _ => .error .misplaced

def flowItems (fuel : Nat) (first : Bool) (found : List Node) (r : Reading) : Step := do
  match fuel with
  | 0 => .error .misplaced
  | fuel + 1 =>
    let item (r : Reading) : Step := do
      match r.tokens with
      | .key :: _ =>
        let (key, r) ← nodeUnless fuel [.value, .comma, .closeBracket] false false r.drop
        let (value, r) ← flowValue fuel .closeBracket r
        flowItems fuel false (.mapping [(key, value)] :: found) r
      | .closeBracket :: _ => return (.sequence found.reverse, r.drop)
      | _ =>
        let (item, r) ← node fuel false false r
        flowItems fuel false (item :: found) r
    match r.tokens, first with
    | .closeBracket :: _, _ => return (.sequence found.reverse, r.drop)
    | _, true => item r
    | .comma :: _, false => item r.drop
    | _, false => .error .misplaced

/-- The value behind a key in brackets or braces, up to a comma or the end. -/
def flowValue (fuel : Nat) (closing : Token) (r : Reading) : Step := do
  match fuel with
  | 0 => .error .misplaced
  | fuel + 1 =>
    match r.tokens with
    | .value :: _ => nodeUnless fuel [.comma, closing] false false r.drop
    | _ => return (.empty, r)

def flowEntries (fuel : Nat) (first : Bool) (found : List (Node × Node)) (r : Reading) :
    Step := do
  match fuel with
  | 0 => .error .misplaced
  | fuel + 1 =>
    let entry (r : Reading) : Step := do
      match r.tokens with
      | .key :: _ =>
        let (key, r) ← nodeUnless fuel [.value, .comma, .closeBrace] false false r.drop
        let (value, r) ← flowValue fuel .closeBrace r
        flowEntries fuel false ((key, value) :: found) r
      | .closeBrace :: _ => return (.mapping found.reverse, r.drop)
      | _ =>
        let (key, r) ← node fuel false false r
        flowEntries fuel false ((key, .empty) :: found) r
    match r.tokens, first with
    | .closeBrace :: _, _ => return (.mapping found.reverse, r.drop)
    | _, true => entry r
    | .comma :: _, false => entry r.drop
    | _, false => .error .misplaced

end

/-! ### Documents -/

/-- The handles that need no directive. -/
def standardHandles : List (String × String) :=
  [("!", "!"), ("!!", "tag:yaml.org,2002:")]

/-- The handles that directives define, and what follows the directives. -/
def directives (versions : Nat) (handles : List (String × String)) :
    List Token → Except Fault (List (String × String) × List Token)
  | .version major minor :: rest =>
    if versions = 0 ∧ major = 1 ∧ (minor = 1 ∨ minor = 2) then
      directives (versions + 1) handles rest
    else .error .misplaced
  | .tagHandle handle start :: rest =>
    if handles.any fun binding => binding.1 = handle then .error .misplaced
    else directives versions ((handle, start) :: handles) rest
  | rest => .ok (handles, rest)

/-- Checks that nothing follows a document. -/
def finish : List Token → Except Fault Unit
  | [] => .ok ()
  | .documentEnd :: rest => finish rest
  | _ => .error .severalDocuments

/-- The document of a text; nothing for a text without one. -/
def parse (text : String) : Except Fault (Option Node) := do
  let all ← tokens text
  let fuel := 4 * all.length + 4
  let start (handles : List (String × String)) (tokens : List Token) : Reading :=
    ⟨tokens, handles ++ standardHandles, []⟩
  match all with
  | [] => return none
  | .version .. :: _ | .tagHandle .. :: _ | .documentStart :: _ =>
    let (handles, rest) ← directives 0 [] all
    match rest with
    | .documentStart :: rest =>
      match rest with
      | [] => return some .empty
      | .documentEnd :: _ | .documentStart :: _ | .version .. :: _ | .tagHandle .. :: _ =>
        finish rest
        return some .empty
      | _ =>
        let (root, r) ← node fuel true false (start handles rest)
        finish r.tokens
        return some root
    | _ => .error .misplaced
  | _ =>
    let (root, r) ← node fuel true false (start [] all)
    finish r.tokens
    return some root

end Jobflow.Yaml
