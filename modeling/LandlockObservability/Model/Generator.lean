import LandlockObservability.ForStd.Grouping
import LandlockObservability.Model.Event

/-!
# The generator of the access-name tables

Models `scripts/generate-access-names.py`, which reads two kernel headers and writes the tables of
`src/event/access_names.rs`: `logical_lines`, `parse_uapi`, `parse_lists`, `render`,
`generate` and `main`, with their errors.

The regular expressions of Python and `str.strip` are a structure, `Python`, whose fields are the
calls that the script makes; only the expression for names, `[a-z][a-z0-9_]*`, is written out.  A
dictionary is the list of its items in insertion order.  The headers are texts; `main` is given
what reading the files gives, and the comment lines at the start of the output.  The command line
is left out, and so are an output that cannot be written and the limit that recent versions of
Python have for the length of a numeral.
-/

namespace Landlock.Generator

/-- What the script calls of Python. -/
structure Python where
  /-- `re.search(r"\\[ \t]+$", line)`. -/
  spaceAfterBackslash : String → Bool
  /-- `DEFINE_RE.match(line).groups()`, for `^\s*#\s*define\s+(\w+)\s+(.*?)\s*$`. -/
  defineRe : String → Option (String × String)
  /-- `BIT_RE.match(expression).group(1)`, for `^\(\s*1ULL\s*<<\s*([0-9]+)\s*\)$`. -/
  bitRe : String → Option String
  /-- `ENTRY_RE.findall(body)`: constants with the quoted names behind them. -/
  findEntries : String → List (String × String)
  /-- `ENTRY_RE.sub("", body)`. -/
  removeEntries : String → String
  /-- `str.strip()`. -/
  strip : String → String

/-! ## Categories -/

/-- The first column of `CATEGORIES`. -/
def category : AccessKind → String
  | .filesystem => "filesystem"
  | .network => "network"
  | .scope => "scope"

/-- The second column. -/
def macroPrefix : AccessKind → String
  | .filesystem => "LANDLOCK_ACCESS_FS_"
  | .network => "LANDLOCK_ACCESS_NET_"
  | .scope => "LANDLOCK_SCOPE_"

/-- The third column. -/
def listMacro : AccessKind → String
  | .filesystem => "_LANDLOCK_ACCESS_FS_NAMES"
  | .network => "_LANDLOCK_ACCESS_NET_NAMES"
  | .scope => "_LANDLOCK_SCOPE_NAMES"

/-- The fourth column. -/
def rustName : AccessKind → String
  | .filesystem => "FILESYSTEM_ACCESS_NAMES"
  | .network => "NETWORK_ACCESS_NAMES"
  | .scope => "SCOPE_NAMES"

/-- The rows of `CATEGORIES`. -/
def categories : List AccessKind := [.filesystem, .network, .scope]

/-! ## Text -/

/-- `text.startswith(start)`. -/
def startsWith (start text : String) : Bool := start.toList.isPrefixOf text.toList

/-- A character at which `str.splitlines` splits. -/
def isLineBoundary (c : Char) : Bool :=
  c.toNat ∈ [0x0a, 0x0b, 0x0c, 0x0d, 0x1c, 0x1d, 0x1e, 0x85, 0x2028, 0x2029]

/-- `str.splitlines`, with the characters of the current line. -/
def splitlinesFrom (line : List Char) : List Char → List String
  | [] => if line.isEmpty then [] else [String.ofList line]
  -- The two characters end one line
  | '\r' :: '\n' :: rest => String.ofList line :: splitlinesFrom [] rest
  | c :: rest =>
    if isLineBoundary c then String.ofList line :: splitlinesFrom [] rest
    else splitlinesFrom (line ++ [c]) rest

/-- `str.splitlines`. -/
def splitlines (text : String) : List String := splitlinesFrom [] text.toList

/-- `text.strip(chars)` is not empty. -/
def hasOther (chars : List Char) (text : String) : Bool := text.toList.any (· ∉ chars)

/-- `', '.join(names)`. -/
def joined (names : List String) : String := ", ".intercalate names

/-- `int` of decimal digits. -/
def int (digits : String) : Nat :=
  digits.toList.foldl (fun n c => 10 * n + (c.toNat - '0'.toNat)) 0

/-- `re.fullmatch(r"[a-z][a-z0-9_]*", name)`. -/
def isName (name : String) : Bool :=
  match name.toList with
  | [] => false
  | c :: cs => c.isLower && cs.all fun c => c.isLower || c.isDigit || c = '_'

section

variable (py : Python)

/-! ## `logical_lines` -/

/-- A line of the loop in `logical_lines`, with `result` and `pending`. -/
def logicalLine (s : List String × String) (line : String) :
    Except String (List String × String) :=
  let (result, pending) := s
  if py.spaceAfterBackslash line then
    .error "whitespace follows a continuation backslash"
  else
    let continued := line.toList.getLast? = some '\\'
    let piece := if continued then String.ofList line.toList.dropLast else line
    -- Pieces are joined with a space
    let pending := pending ++ (if pending.isEmpty then "" else " ") ++ piece
    if continued then .ok (result, pending) else .ok (result ++ [pending], "")

/-- `logical_lines`. -/
def logicalLines (text : String) : Except String (List String) := do
  let (result, pending) ← (splitlines text).foldlM (logicalLine py) ([], "")
  if pending.isEmpty then .ok result
  else .error "header ends with an unterminated backslash continuation"

/-! ## `parse_uapi` -/

/-- The dictionary `constants`. -/
abbrev Constants := AccessKind → List (String × Nat)

/-- The end of the loop in `parse_uapi`, for a constant of a category. -/
def addConstant (constants : Constants) (kind : AccessKind) (name expression : String) :
    Except String Constants :=
  match py.bitRe expression with
  | none => .error s!"malformed single-bit expression for {name}: {expression}"
  | some digits =>
    let shift := int digits
    if 64 ≤ shift then
      .error s!"bit for {name} does not fit in u64: {shift}"
    else if name ∈ (constants kind).map Prod.fst then
      .error s!"duplicate UAPI constant: {name}"
    else
      -- Two constants of a category may not share a bit
      match (constants kind).find? fun other => other.2 = shift with
      | some (other, _) => .error s!"duplicate {category kind} bit {shift}: {other} and {name}"
      | none => .ok (Function.update constants kind (constants kind ++ [(name, shift)]))

/-- A line of the loop in `parse_uapi`. -/
def parseUapiLine (constants : Constants) (line : String) : Except String Constants :=
  match py.defineRe line with
  | none => .ok constants
  | some (name, expression) =>
    match categories.find? fun kind => startsWith (macroPrefix kind) name with
    | none =>
      -- A category that the script does not know must not be lost
      if startsWith "LANDLOCK_ACCESS_" name then
        .error s!"unrecognized Landlock access category: {name}"
      else
        .ok constants
    | some kind => addConstant py constants kind name expression

/-- `parse_uapi`, for the text of the header. -/
def parseUapi (text : String) : Except String Constants := do
  let constants ← (← logicalLines py text).foldlM (parseUapiLine py) fun _ => []
  match categories.find? fun kind => (constants kind).isEmpty with
  | some kind => .error s!"no {category kind} UAPI constants found"
  | none => .ok constants

/-! ## `parse_lists` -/

/-- A line of the first loop in `parse_lists`. -/
def parseDefinition (definitions : List (String × String)) (line : String) :
    Except String (List (String × String)) :=
  match py.defineRe line with
  | none => .ok definitions
  | some (name, body) =>
    if name ∉ categories.map listMacro then .ok definitions
    else if name ∈ definitions.map Prod.fst then
      .error s!"duplicate name-list definition: {name}"
    else .ok (definitions ++ [(name, body)])

/-- An entry of the loop over `entries`, with `listed`; `names` are its values. -/
def parseEntry (list : String) (listed : List (String × String)) (entry : String × String) :
    Except String (List (String × String)) :=
  let (constant, name) := entry
  if constant ∈ listed.map Prod.fst then
    .error s!"duplicate list entry in {list}: {constant}"
  else if name ∈ listed.map Prod.snd then
    .error s!"duplicate display name in {list}: \"{name}\""
  else if isName name then
    .ok (listed ++ [entry])
  else
    .error s!"invalid unprefixed name in {list}: \"{name}\""

/-- A table: shifts with names. -/
abbrev Table := List (Nat × String)

/-- The comparison of `key=lambda entry: entry[0]`. -/
def compareShifts (entry entry' : Nat × String) : Ordering := compare entry.1 entry'.1

/-- The end of the second loop in `parse_lists`: the listed constants are compared with those of
    the other header. -/
def tableOf (list : String) (constants : List (String × Nat)) (listed : List (String × String)) :
    Except String Table := do
  let defined := constants.map Prod.fst
  let present := listed.map Prod.fst
  let missing := Grouping.sortBy compare (defined.filter (· ∉ present))
  let extra := Grouping.sortBy compare (present.filter (· ∉ defined))
  -- Missing constants are reported before the others
  if !missing.isEmpty then
    .error s!"UAPI constants missing from {list}: {joined missing}"
  else if !extra.isEmpty then
    .error s!"entries without matching UAPI constants in {list}: {joined extra}"
  else
    let entries ← listed.mapM fun (constant, name) =>
      match constants.lookup constant with
      | some shift => .ok (shift, name)
      -- `KeyError`, not reachable past the two checks
      | none => .error constant
    .ok (Grouping.sortBy compareShifts entries)

/-- The second loop of `parse_lists`, for one category. -/
def parseList (constants : Constants) (definitions : List (String × String)) (kind : AccessKind) :
    Except String Table :=
  let list := listMacro kind
  match definitions.lookup list with
  | none => .error s!"missing name list: {list}"
  | some body =>
    let residual := py.removeEntries body
    -- Whatever is not an entry must be a separator
    if hasOther [' ', '\t', ','] residual then
      .error s!"malformed entry in {list}: {py.strip residual}"
    else do
      let listed ← (py.findEntries body).foldlM (parseEntry list) []
      tableOf list (constants kind) listed

/-- `parse_lists`, for the text of the header. -/
def parseLists (text : String) (constants : Constants) : Except String (AccessKind → Table) := do
  let definitions ← (← logicalLines py text).foldlM (parseDefinition py) []
  categories.foldlM
    (fun tables kind =>
      (parseList py constants definitions kind).map (Function.update tables kind)) fun _ => []

/-! ## `render` and `generate` -/

/-- The lines of one table in `render`. -/
def renderTable (kind : AccessKind) (table : Table) : List String :=
  ["#[rustfmt::skip]", s!"pub(crate) const {rustName kind}: &[(u64, &str)] = &["] ++
    (table.map fun (shift, name) => s!"    (1_u64 << {shift}, \"{name}\"),") ++
    -- No blank line after the last table
    if kind = .scope then ["];"] else ["];", ""]

/-- `render`, after the comment lines. -/
def render (tables : AccessKind → Table) : String :=
  "\n".intercalate (categories.flatMap fun kind => renderTable kind (tables kind)) ++ "\n"

/-- `generate`, for the texts of the two headers. -/
def generate (uapi internal : String) : Except String String := do
  let constants ← parseUapi py uapi
  let tables ← parseLists py internal constants
  return render tables

/-! ## `main` -/

/-- How a run of the script ends. -/
inductive Exit where
  /-- The exit code 0 of a comparison. -/
  | unchanged
  /-- The exit code 0, and what the output holds then. -/
  | written (bytes : List UInt8)
  /-- The exit code 1: the output is another one. -/
  | differs
  /-- `parser.error`. -/
  | error (message : String)
  deriving DecidableEq

/-- `generate`, for what reading the headers gives, with the comment lines at the start. -/
def generateFrom (preamble : String) (uapi internal : Except String String) :
    Except String String := do
  let constants ← parseUapi py (← uapi)
  let tables ← parseLists py (← internal) constants
  return preamble ++ render tables

/-- `main` after the command line, for what reading the output gives. -/
def main (preamble : String) (check : Bool) (uapi internal : Except String String)
    (current : Except String (List UInt8)) : Exit :=
  match generateFrom py preamble uapi internal with
  | .error message => .error message
  | .ok generated =>
    let encoded := generated.toUTF8.data.toList
    -- The comparison is one of bytes
    if check then
      match current with
      | .error message => .error message
      | .ok current => if current ≠ encoded then .differs else .unchanged
    else .written encoded

end

end Landlock.Generator
