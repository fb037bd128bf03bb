import ClassAccess.Access.Flags

/-!
# Modifier edits

Beside a level, a rule may ask that a flag be set or cleared whatever the level is. The only flag
that may be edited so far is the final flag.

## Main definitions

* `Modifier`, `EditAction`, `Edit` — a flag, what to do to it, and the two together.
* `Edits` — a list of edits with at most one per modifier.
* `Edits.put` — adds an edit, in place of an earlier one for the same modifier.

## Main results

* `Edits.toList_eq` — edits are known by what they do to the only modifier.
* `Edits.action?_put` — after `put`, the modifier of the new edit has its action and every other one
  keeps its own.
-/

set_option autoImplicit false

namespace ClassAccess

/-- A flag that a rule may edit. -/
inductive Modifier
  /-- The final flag. -/
  | final
deriving DecidableEq, Repr, Inhabited

namespace Modifier

/-- All modifiers. -/
def all : List Modifier := [final]

/-- The word for the modifier in rule text. -/
def symbol : Modifier → String
  | final => "f"

/-- The modifier that a word of rule text names. -/
def ofSymbol? (w : String) : Option Modifier :=
  all.find? fun m => m.symbol = w

/-- The bit of the modifier. -/
def flag : Modifier → Flags
  | final => Flags.finalBit

end Modifier

/-- What an edit does to its flag. -/
inductive EditAction
  /-- Sets the flag, `+` in rule text. -/
  | set
  /-- Clears the flag, `-` in rule text. -/
  | clear
deriving DecidableEq, Repr, Inhabited

namespace EditAction

/-- The sign of the action in rule text. -/
def sign : EditAction → Char
  | set => '+'
  | clear => '-'

/-- The action of a sign. -/
def ofSign? (c : Char) : Option EditAction :=
  if c = '+' then some set else if c = '-' then some clear else none

end EditAction

/-- One flag to edit and what to do to it. -/
structure Edit where
  /-- The flag to edit. -/
  modifier : Modifier
  /-- Whether to set it or to clear it. -/
  action : EditAction
deriving DecidableEq, Repr, Inhabited

namespace Edit

/-- The edit in rule text: its sign and its symbol. -/
def text (e : Edit) : String :=
  e.action.sign.toString ++ e.modifier.symbol

/-- The flag word after the edit. -/
def apply (e : Edit) (flags : Flags) : Flags :=
  match e.action with
  | .set => flags ||| e.modifier.flag
  | .clear => flags &&& ~~~e.modifier.flag

end Edit

/-! ## Lists of edits -/

/-- Edits in the order they were first asked for, at most one per modifier. -/
structure Edits where
  /-- The edits in order. -/
  toList : List Edit
  /-- No modifier is edited twice. -/
  nodup : (toList.map Edit.modifier).Nodup
deriving DecidableEq

namespace Edits

/-- No edit at all. -/
def none : Edits := ⟨[], List.nodup_nil⟩

instance : Inhabited Edits := ⟨none⟩

/-- The list with `e` in place of the edits of the same modifier, or at the end if there are
none. -/
def putList (e : Edit) : List Edit → List Edit
  | [] => [e]
  | d :: ds => if d.modifier = e.modifier then e :: ds else d :: putList e ds

/-- The modifiers after a put are those before it and that of the new edit. -/
theorem mem_map_putList {e : Edit} {l : List Edit} {m : Modifier} :
    m ∈ (putList e l).map Edit.modifier → m = e.modifier ∨ m ∈ l.map Edit.modifier := by
  induction l with
  | nil => exact fun h => .inl (List.mem_singleton.1 h)
  | cons d ds ih =>
    unfold putList
    split <;> intro h
    · exact (List.mem_cons.1 h).imp id (List.mem_cons_of_mem _)
    · rcases List.mem_cons.1 h with h | h
      · exact .inr (h ▸ List.mem_cons_self)
      · exact (ih h).imp id (List.mem_cons_of_mem _)

/-- Putting an edit keeps modifiers distinct. -/
theorem nodup_putList {e : Edit} {l : List Edit} (h : (l.map Edit.modifier).Nodup) :
    ((putList e l).map Edit.modifier).Nodup := by
  induction l with
  | nil => exact List.nodup_cons.2 ⟨List.not_mem_nil, List.nodup_nil⟩
  | cons d ds ih =>
    have hd := List.nodup_cons.1 h
    unfold putList
    split
    · next he => exact List.nodup_cons.2 ⟨he ▸ hd.1, hd.2⟩
    · next he =>
      refine List.nodup_cons.2 ⟨fun hm => ?_, ih hd.2⟩
      exact (mem_map_putList hm).elim he hd.1

/-- The edits with `e` added, in place of an earlier edit of the same modifier. -/
def put (es : Edits) (e : Edit) : Edits :=
  ⟨putList e es.toList, nodup_putList es.nodup⟩

/-- The edits with all of `l` added in order, so that of two edits of a modifier the later stays. -/
def putAll (es : Edits) (l : List Edit) : Edits :=
  l.foldl put es

/-- Of many edits the first one is put first. -/
theorem putAll_cons (es : Edits) (e : Edit) (l : List Edit) :
    es.putAll (e :: l) = (es.put e).putAll l := rfl

/-- The edits of a list in which the later of two edits of a modifier stays. -/
def ofList (l : List Edit) : Edits :=
  none.putAll l

/-- What the edits do to a modifier. -/
def action? (es : Edits) (m : Modifier) : Option EditAction :=
  (es.toList.find? fun e => e.modifier = m).map Edit.action

/-- With a single modifier, the edits are those of it. -/
theorem toList_eq (es : Edits) : es.toList = ((es.action? .final).map (Edit.mk .final)).toList := by
  obtain ⟨l, hl⟩ := es
  match l, hl with
  | [], _ => rfl
  | [⟨.final, _⟩], _ => rfl
  | ⟨.final, _⟩ :: ⟨.final, _⟩ :: _, hl => exact absurd List.mem_cons_self (List.nodup_cons.1 hl).1

/-- Looking up a modifier after an edit was put into a list. -/
theorem find?_putList (e : Edit) (l : List Edit) (m : Modifier) :
    (putList e l).find? (fun d => d.modifier = m) =
      if e.modifier = m then some e else l.find? fun d => d.modifier = m := by
  obtain ⟨_ | _, a⟩ := e
  cases m
  cases l <;> rfl

/-- After `put`, the new edit's modifier has its action and every other one keeps its own. -/
theorem action?_put (es : Edits) (e : Edit) (m : Modifier) :
    (es.put e).action? m = if e.modifier = m then some e.action else es.action? m := by
  unfold action? put
  rw [find?_putList]
  split <;> rfl

/-- The flag word after all edits of a list, in order. -/
def applyList (l : List Edit) (flags : Flags) : Flags :=
  l.foldl (fun flags e => e.apply flags) flags

/-- The edits in rule text. -/
def text (es : Edits) : String :=
  String.join (es.toList.map Edit.text)

end Edits

end ClassAccess
