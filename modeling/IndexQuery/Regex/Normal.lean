import IndexQuery.Regex.Basic

/-! # Normal forms

    Before an expression is compiled it is brought to a normal form:

    * neighbouring characters are one literal, and nothing is left of empty parts;
    * a choice between characters is a set, and so is a choice between sets;
    * what all sequences of a choice begin with stands before the choice;
    * what fits only the empty stretch is not repeated.
-/

namespace IndexQuery

/-- An expression in normal form. -/
inductive Normal where
  | empty
  /-- Characters, at least one. -/
  | literal (text : List Char)
  /-- One character of a set that does not have exactly one. -/
  | set (members : CharSet)
  | look (a : Assertion)
  | repeated (r : Normal) (least : Nat) (most : Option Nat) (short : Bool)
  | group (number : Nat) (r : Normal)
  /-- At least two parts, one after the other. -/
  | seq (parts : List Normal)
  /-- At least two parts, of which one fits. -/
  | choice (parts : List Normal)
deriving Inhabited

namespace Normal

/-! ## Equality -/

mutual

/-- Whether two normal forms are the same. -/
def same : Normal → Normal → Bool
  | .empty, .empty => true
  | .literal s, .literal t => s = t
  | .set s, .set t => s = t
  | .look a, .look b => a = b
  | .repeated r least most short, .repeated r' least' most' short' =>
    r.same r' && least = least' && most = most' && short = short'
  | .group n r, .group n' r' => n = n' && r.same r'
  | .seq rs, .seq rs' | .choice rs, .choice rs' => sameAll rs rs'
  | _, _ => false

/-- Whether two lists hold the same normal forms. -/
def sameAll : List Normal → List Normal → Bool
  | [], [] => true
  | r :: rs, r' :: rs' => r.same r' && sameAll rs rs'
  | _, _ => false

end

/-! ## Lengths -/

mutual

/-- Whether only the empty stretch can fit. -/
def isVoid : Normal → Bool
  | .empty | .look _ => true
  | .literal _ | .set _ => false
  | .repeated r _ most _ => most.isSome && r.isVoid
  | .group _ r => r.isVoid
  | .seq rs | .choice rs => areVoid rs

/-- Whether only the empty stretch can fit each of several forms. -/
def areVoid : List Normal → Bool
  | [] => true
  | r :: rs => r.isVoid && areVoid rs

end

mutual

/-- The least number of characters that can fit, if some can. What a choice may
    fail with it fails with. -/
def leastLength? : Normal → Option Nat
  | .empty | .look _ => some 0
  | .literal text => some text.length
  | .set members => if members.ranges.isEmpty then none else some 1
  | .repeated r least _ _ => r.leastLength?.map (· * least)
  | .group _ r => r.leastLength?
  | .seq rs => (leastLengths? rs).map List.sum
  | .choice rs => (leastLengths? rs).bind List.min?

/-- The least numbers of characters that can fit each of several forms. -/
def leastLengths? : List Normal → Option (List Nat)
  | [] => some []
  | r :: rs => r.leastLength?.bind fun n => (leastLengths? rs).map (n :: ·)

end

mutual

/-- The number of forms that a form consists of. -/
def size : Normal → Nat
  | .empty | .literal _ | .set _ | .look _ => 1
  | .repeated r _ _ _ | .group _ r => r.size + 1
  | .seq rs | .choice rs => sizeAll rs + 1

/-- The number of forms that several forms consist of. -/
def sizeAll : List Normal → Nat
  | [] => 0
  | r :: rs => r.size + sizeAll rs

end

/-! ## Parts -/

/-- The form of a set, a literal if it has one character. -/
def ofSet (members : CharSet) : Normal :=
  match members.single? with
  | some c => .literal [c]
  | none => .set members

/-- The parts that a form has one after the other. -/
def parts : Normal → List Normal
  | .empty => []
  | .seq rs => rs
  | r => [r]

/-- The parts between which a form is a choice. -/
def alternatives : Normal → List Normal
  | .choice rs => rs
  | r => [r]

/-- The form of some parts, one after the other. -/
def ofParts : List Normal → Normal
  | [] => .empty
  | [r] => r
  | rs => .seq rs

/-- Puts parts behind others; literals that meet become one. -/
def join : List Normal → List Normal → List Normal
  | [], rs => rs
  | [.literal s], .literal t :: rs => .literal (s ++ t) :: rs
  | r :: rs, rs' => r :: join rs rs'

/-- One form after the other. -/
def append (a b : Normal) : Normal := ofParts (join a.parts b.parts)

/-! ## Repetition -/

/-- A form, repeated. -/
def repetition (r : Normal) (least : Nat) (most : Option Nat) (short : Bool) : Normal :=
  let (least, most) :=
    if r.isVoid then (min least 1, some (min (most.getD 1) 1)) else (least, most)
  if least = 0 && most = some 0 then .empty
  else if least = 1 && most = some 1 then r
  else .repeated r least most short

/-! ## Choice -/

/-- The character of a literal that has no other. -/
def char? : Normal → Option Char
  | .literal [c] => some c
  | _ => none

/-- The members of a set. -/
def members? : Normal → Option CharSet
  | .set members => some members
  | _ => none

/-- The parts of a form that has several. -/
def seq? : Normal → Option (List Normal)
  | .seq rs => some rs
  | _ => none

/-- How many parts two forms have in common at the front. -/
def commonLength : List Normal → List Normal → Nat
  | r :: rs, r' :: rs' => if r.same r' then commonLength rs rs' + 1 else 0
  | _, _ => 0

/-- What several sequences begin with, and what is left of each. -/
def factor? (rs : List Normal) : Option (List Normal × List Normal) := do
  match ← rs.mapM seq? with
  | [] => none
  | first :: others =>
    let n := others.foldl (fun n other => min n (commonLength first other)) first.length
    if n = 0 then none
    else return (first.take n, (first :: others).map fun rs => ofParts (rs.drop n))

/-- A choice, brought to normal form in up to `rounds` rounds. -/
def choiceUpTo : (rounds : Nat) → List Normal → Normal
  | 0, rs => .choice rs
  | rounds + 1, rs =>
    match rs.flatMap alternatives with
    | [] => .set .none
    | [r] => r
    | rs =>
      match rs.mapM char?, rs.mapM members?, factor? rs with
      | some cs, _, _ => ofSet (.ofRanges (cs.map fun c => (c.toNat, c.toNat)))
      | none, some sets, _ => ofSet (.ofRanges (sets.flatMap (·.ranges)))
      | none, none, some (front, rest) => ofParts (join front (choiceUpTo rounds rest).parts)
      | none, none, none => .choice rs

/-- Any of several forms. Every round but the last takes parts away, so there are
    no more rounds than parts. -/
def ofChoice : List Normal → Normal
  | [r] => r
  | rs => choiceUpTo (sizeAll rs + 1) rs

end Normal

/-- The normal forms of the alternatives of an expression. -/
def Regex.normals : Regex → List Normal
  | .empty => [.empty]
  | .chars set => [.ofSet set]
  | .look a => [.look a]
  | .seq a b => [(Normal.ofChoice a.normals).append (Normal.ofChoice b.normals)]
  | .alt a b => Normal.ofChoice a.normals :: b.normals
  | .repeated r least most short => [(Normal.ofChoice r.normals).repetition least most short]
  | .group none r => [Normal.ofChoice r.normals]
  | .group (some number) r => [.group number (Normal.ofChoice r.normals)]

/-- The normal form of an expression. -/
def Regex.normal (r : Regex) : Normal := Normal.ofChoice r.normals

end IndexQuery
