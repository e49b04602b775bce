import Stencil.Value.Basic

/-!
# Iterable, empty, true

The three questions that sections ask a value: whether it is iterated over, whether it is empty and
so gives way to the else clause, and, for options, whether it is true in the general sense.
-/

namespace Stencil.Value

/-- Lists, tuples and iterators are iterated over; texts, bytes and mappings are not. -/
def isIterable : Value → Bool
  | list .. | tuple .. | iterator .. => true
  | _ => false

/-- Null, false, empty texts and empty collections are empty, and so is zero unless `includeZero`
holds. Iterators have no size, so they never are. -/
def isEmpty (includeZero : Bool) : Value → Bool
  | null => true
  | bool b => !b
  | int n => !includeZero && n.content == 0
  | float x => !includeZero && x.content == 0.0
  | text s | safe s => s.content == ""
  | bytes _ content => content.isEmpty
  | list _ items | tuple _ items => items.isEmpty
  | map _ entries => entries.isEmpty
  | object .. | iterator .. | function .. | lambda .. | pathLambda .. => false

/-- True in the general sense: everything that is not empty. -/
def isTrue (v : Value) : Bool := !v.isEmpty false

end Stencil.Value
