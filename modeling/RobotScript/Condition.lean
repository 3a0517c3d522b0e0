import RobotScript.Text.Capital

/-!
# Conditions

What a robot can test: the content of the cell ahead, a coin flip, or nothing at all. A test of
the cell ahead has an affirmative and a negative form. The ten conditions have a fixed order,
which numbers the conditional jumps.

Source text may spell a condition exactly, or in any letter case and with underscores for
hyphens.

## Main definitions

* `Condition` and its `spelling`, `index` and `negated?`.
* `Condition.ofSpelling?` — the condition with exactly this spelling.
* `Condition.ofWord?` — the condition that a word stands for up to letter case and hyphens.
-/

namespace RobotScript

/-- What the robot can see in the cell ahead. -/
inductive Sight where
  | empty
  | enemy
  | friend
  | wall
  deriving DecidableEq, Repr

/-- A test the robot can make. -/
inductive Condition where
  /-- The cell ahead shows `sight`, or does not if `negative`. -/
  | ahead (sight : Sight) (negative : Bool)
  /-- A coin flip. -/
  | random
  /-- Holds always. -/
  | always
  deriving DecidableEq, Repr

namespace Sight

/-- The word for what is seen. -/
def word : Sight → String
  | empty => "empty"
  | enemy => "enemy"
  | friend => "friend"
  | wall => "wall"

/-- The word with a capital letter. -/
def title : Sight → String
  | empty => "Empty"
  | enemy => "Enemy"
  | friend => "Friend"
  | wall => "Wall"

/-- The place of the sight in the order of conditions. -/
def index : Sight → Nat
  | empty => 0
  | enemy => 1
  | friend => 2
  | wall => 3

end Sight

namespace Condition

/-- The conditions in the order that numbers them. -/
def all : List Condition :=
  [ahead .empty false, ahead .empty true, ahead .enemy false, ahead .enemy true,
    ahead .friend false, ahead .friend true, ahead .wall false, ahead .wall true, random, always]

/-- The place of a condition in `Condition.all`. -/
def index : Condition → Nat
  | ahead sight negative => 2 * sight.index + negative.toNat
  | random => 8
  | always => 9

/-- How a condition is written in a program. -/
def spelling : Condition → String
  | ahead sight false => "next-is-" ++ sight.word
  | ahead sight true => "next-is-not-" ++ sight.word
  | random => "random"
  | always => "true"

/-- The name of a condition in a listing of the program's structure. -/
def title : Condition → String
  | ahead sight false => "NextIs" ++ sight.title
  | ahead sight true => "NextIsNot" ++ sight.title
  | random => "Random"
  | always => "True"

/-- The condition that holds exactly when this one fails, where there is one. -/
def negated? : Condition → Option Condition
  | ahead sight negative => some (ahead sight !negative)
  | random => none
  | always => none

/-- The condition tests that something is not ahead. -/
def isNegative : Condition → Bool
  | ahead _ negative => negative
  | _ => false

/-- The condition with exactly this spelling. -/
def ofSpelling? (word : String) : Option Condition :=
  all.find? fun c => c.spelling == word

/-- The condition that a word in capitals with underscores stands for. -/
def ofCapitals? : String → Option Condition
  | "NEXT_IS_EMPTY" => some (ahead .empty false)
  | "NEXT_IS_NOT_EMPTY" => some (ahead .empty true)
  | "NEXT_IS_ENEMY" => some (ahead .enemy false)
  | "NEXT_IS_NOT_ENEMY" => some (ahead .enemy true)
  | "NEXT_IS_FRIEND" => some (ahead .friend false)
  | "NEXT_IS_NOT_FRIEND" => some (ahead .friend true)
  | "NEXT_IS_WALL" => some (ahead .wall false)
  | "NEXT_IS_NOT_WALL" => some (ahead .wall true)
  | "RANDOM" => some random
  | "TRUE" => some always
  | _ => none

/-- The condition that a word stands for where one is due. Letter case makes no difference, and
hyphens and underscores are the same. -/
def ofWord? (word : String) : Option Condition :=
  ofCapitals? (Text.capitals word)

/-- Each condition stands in `Condition.all` at its index. -/
theorem getElem?_all (c : Condition) : all[c.index]? = some c := by
  rcases c with ⟨sight, negative⟩ | _ | _
  · cases sight <;> cases negative <;> rfl
  · rfl
  · rfl

theorem mem_all (c : Condition) : c ∈ all :=
  List.mem_of_getElem? c.getElem?_all

end Condition

end RobotScript
