import Sketchbook.Snapshot.Lexeme

/-! Values whose content a record does not keep. A skipped value is only looked at as far as
it takes to find its end; a value that is read for its shape has to be well formed
throughout, with numbers in range and not nested too deep. -/
namespace Sketchbook.Snapshot

def scalar (c : Char) (rest : List Char) : Except Fault (Shape × List Char) :=
  if c = 'n' then (word ['u', 'l', 'l'] rest).map fun rest => (.null, rest)
  else if c = 't' then (word ['r', 'u', 'e'] rest).map fun rest => (.boolean true, rest)
  else if c = 'f' then
    (word ['a', 'l', 's', 'e'] rest).map fun rest => (.boolean false, rest)
  else if c = '"' then
    (stringBody rest).map fun (inner, rest) => (.string (String.ofList inner), rest)
  else if c = '-' then number true rest
  else if isDigit c then number false (c :: rest)
  else .error (.malformed .expectedValue)
where
  /-- A number behind its sign. -/
  number (negative : Bool) (cs : List Char) : Except Fault (Shape × List Char) := do
    let (n, rest) ← numeral (.unfinished .value) cs
    let shape ← n.shape negative
    .ok (shape, rest)

def skipScalar (c : Char) (rest : List Char) : Except Fault (List Char) :=
  if c = 'n' then word ['u', 'l', 'l'] rest
  else if c = 't' then word ['r', 'u', 'e'] rest
  else if c = 'f' then word ['a', 'l', 's', 'e'] rest
  else if c = '"' then skipStringBody rest
  else if c = '-' then (numeral (.malformed .invalidNumber) rest).map Prod.snd
  else if isDigit c then (numeral (.malformed .invalidNumber) (c :: rest)).map Prod.snd
  else .error (.malformed .expectedValue)

inductive Bracket where
  | list | object
  deriving DecidableEq, Repr

inductive Care where
  | skip
  /-- Containers may be open inside one another up to this number. -/
  | read (depth : Nat)
  deriving DecidableEq, Repr

/-- What comes next on the way through a value: a value, the first entry of the innermost
open container, or what follows an entry of it. -/
inductive Awaited where
  | value | entry | next
  deriving DecidableEq, Repr

def Care.opens (care : Care) (inside : List Bracket) : Bool :=
  match care with
  | .skip => true
  | .read depth => inside.length < depth

def Care.scalar (care : Care) (c : Char) (rest : List Char) : Except Fault (List Char) :=
  match care with
  | .skip => skipScalar c rest
  | .read _ => (Snapshot.scalar c rest).map Prod.snd

def colon (cs : List Char) : Except Fault (List Char) :=
  match skipSpace cs with
  | ':' :: rest => .ok rest
  | [] => .error (.unfinished .object)
  | _ => .error (.malformed .expectedColon)

def Care.key (care : Care) : List Char → Except Fault (List Char)
  | '"' :: rest => do
    let rest ← match care with
      | .skip => skipStringBody rest
      | .read _ => (stringBody rest).map Prod.snd
    colon rest
  | _ => .error (.malformed .keyMustBeString)

/-- Goes through a value up to its end, with the containers in `inside` open. Every two
steps take one character at least. -/
def traverse (care : Care) : (fuel : Nat) → Awaited → List Bracket → List Char →
    Except Fault (List Char)
  | 0, _, _, _ => .error (.unfinished .value)
  | fuel + 1, .value, inside, cs =>
    match skipSpace cs with
    | [] => .error (.unfinished .value)
    | c :: rest =>
      if c = '[' then
        if care.opens inside then traverse care fuel .entry (.list :: inside) rest
        else .error (.malformed .nestedTooDeep)
      else if c = '\x7b' then
        if care.opens inside then traverse care fuel .entry (.object :: inside) rest
        else .error (.malformed .nestedTooDeep)
      else do traverse care fuel .next inside (← care.scalar c rest)
  | _ + 1, .entry, [], cs => .ok cs
  | fuel + 1, .entry, .list :: outer, cs =>
    match skipSpace cs with
    | [] => .error (.unfinished .list)
    | ']' :: rest => traverse care fuel .next outer rest
    | rest => traverse care fuel .value (.list :: outer) rest
  | fuel + 1, .entry, .object :: outer, cs =>
    match skipSpace cs with
    | [] => .error (.unfinished .object)
    | '\x7d' :: rest => traverse care fuel .next outer rest
    | rest => do traverse care fuel .value (.object :: outer) (← care.key rest)
  | _ + 1, .next, [], cs => .ok cs
  | fuel + 1, .next, .list :: outer, cs =>
    match skipSpace cs with
    | [] => .error (.unfinished .list)
    | ']' :: rest => traverse care fuel .next outer rest
    | ',' :: rest =>
      match care, skipSpace rest with
      | .read _, ']' :: _ => .error (.malformed .trailingComma)
      | _, rest => traverse care fuel .value (.list :: outer) rest
    | _ => .error (.malformed .expectedListEnd)
  | fuel + 1, .next, .object :: outer, cs =>
    match skipSpace cs with
    | [] => .error (.unfinished .object)
    | '\x7d' :: rest => traverse care fuel .next outer rest
    | ',' :: rest =>
      match care, skipSpace rest with
      | .read _, [] => .error (.unfinished .value)
      | .skip, [] => .error (.unfinished .object)
      | .read _, '\x7d' :: _ => .error (.malformed .trailingComma)
      | _, rest => do traverse care fuel .value (.object :: outer) (← care.key rest)
    | _ => .error (.malformed .expectedObjectEnd)

def through (care : Care) (cs : List Char) : Except Fault (List Char) :=
  traverse care (2 * cs.length + 2) .value [] cs

def skipValue (cs : List Char) : Except Fault (List Char) := through .skip cs

def shapeAt (cs : List Char) : Except Fault (Shape × List Char) :=
  match skipSpace cs with
  | [] => .error (.unfinished .value)
  | c :: rest =>
    if c = '[' then .ok (.sequence, c :: rest)
    else if c = '\x7b' then .ok (.map, c :: rest)
    else scalar c rest

def shape (depth : Nat) : Reader Shape := fun cs => do
  let (shape, rest) ← shapeAt cs
  if shape = .sequence ∨ shape = .map then .ok (shape, ← through (.read depth) rest)
  else .ok (shape, rest)

def mismatch {α : Type} (wanted : Wanted) (cs : List Char) : Except Fault α := do
  let (shape, _) ← shapeAt cs
  .error (.wrongShape shape wanted)

end Sketchbook.Snapshot
