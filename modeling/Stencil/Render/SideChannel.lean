import Stencil.Node.Basic

/-!
# The side channel

What all scopes of a render share: the data variables, and the inline partials. Inline partials are
kept in frames, the innermost first; a frame that is pushed starts as a copy of the one below it, so
what is defined in it is gone when it is popped. The frames live under a name of their own among the
data; a host that puts something else there gets faults from whatever needs the frames. A list is
something else as soon as its last item is no mapping, also where that item could be copied into one,
as an empty list, an empty text and a list of pairs could: such seeds are not told apart here.
-/

namespace Stencil

/-- What an inline partial stands for: nodes, or whatever a host put there. -/
inductive InlinePartial where
  | nodes (body : List Node)
  | foreign (value : Value)

/-- Inline partials by name. -/
abbrev Frame := List (String × InlinePartial)

namespace Frame

/-- A partial defined: in place of the one of its name, or last. -/
def define (name : String) (found : InlinePartial) : Frame → Frame
  | [] => [(name, found)]
  | (n, p) :: rest => if n == name then (n, found) :: rest else (n, p) :: define name found rest

/-- The names that are defined, in alphabetical order. -/
def names (frame : Frame) : List String := (frame.map (·.1)).mergeSort fun a b => !(b < a)

/-- The frame that a mapping of the host's amounts to. -/
def ofEntries (entries : List (Value × Value)) : Frame :=
  entries.filterMap fun (k, v) => k.asText?.map (·, .foreign v)

end Frame

/-- The frames of a render. -/
inductive Frames where
  /-- Frames, the innermost first. -/
  | stack (frames : List Frame)
  /-- Something else, put there by the host. -/
  | foreign (value : Value)

namespace Frames

/-- The frames before anything is defined: one, and empty. -/
def initial : Frames := stack [[]]

/-- The frames that a value of the host's amounts to: a list of mappings, the last the innermost. -/
def ofValue : Value → Frames
  | .list label items =>
    match items.getLast? with
    | some (.map ..) | none =>
      stack <| items.reverse.map fun
        | .map _ entries => Frame.ofEntries entries
        | _ => []
    | _ => foreign (.list label items)
  | v => foreign v

/-- The fault of frames that are none. -/
def noFrames : Fault := .raised .attribute "the inline partials are not frames"

/-- The fault of frames of which none is left. -/
def noFrame : Fault := .raised .index "list index out of range"

/-- The visible inline partials. -/
def visible : Frames → Except Fault Frame
  | stack (top :: _) => pure top
  | stack [] => throw noFrame
  | foreign _ => throw noFrames

/-- A partial defined in the innermost frame. -/
def define (name : String) (found : InlinePartial) : Frames → Except Fault Frames
  | stack (top :: rest) => pure (stack (Frame.define name found top :: rest))
  | stack [] => throw noFrame
  | foreign _ => throw noFrames

/-- A copy of the innermost frame pushed. -/
def push : Frames → Except Fault Frames
  | stack (top :: rest) => pure (stack (top :: top :: rest))
  | stack [] => throw noFrame
  | foreign _ => throw noFrames

/-- The innermost frame popped; the last one stays. -/
def pop : Frames → Except Fault Frames
  | stack (_ :: below :: rest) => pure (stack (below :: rest))
  | stack _ => throw .frameUnderflow
  | foreign _ => throw noFrames

/-- All frames, the innermost first. -/
def all : Frames → List Frame
  | stack frames => frames
  | foreign _ => []

/-- The value of the frames, for hosts that ask. -/
def toValue : Frames → Value
  | stack frames =>
    .list 0 <| frames.reverse.map fun frame =>
      .map 0 <| frame.map fun (name, found) =>
        (.text name, match found with
          | .foreign v => v
          | .nodes _ => .null)
  | foreign v => v

end Frames

/-- Data variables and inline partials. -/
structure SideChannel where
  /-- All data but the frames. -/
  data : Bindings := []
  frames : Frames := .initial

namespace SideChannel

/-- The name under which the frames are kept. -/
def framesName : String := "inline_partials"

/-- The name under which an argument count would be kept. -/
def arityName : String := "param_size"

/-- Names that no reference reads. -/
def reserved : List String := [framesName, arityName]

/-- One value set. -/
def set (c : SideChannel) (name : String) (value : Value) : SideChannel :=
  if name == framesName then { c with frames := .ofValue value }
  else { c with data := c.data.set name value }

/-- The side channel of a render with the host's data. -/
def ofData (data : List (String × Value)) : SideChannel :=
  data.foldl (fun c (name, value) => c.set name value) {}

/-- A value by its name. -/
def get? (c : SideChannel) (name : String) : Option Value :=
  if name == framesName then some c.frames.toValue else c.data.lookup name

/-- The values that references read. -/
def readable (c : SideChannel) : Bindings := c.data.filter fun (name, _) => !reserved.contains name

end SideChannel

end Stencil
