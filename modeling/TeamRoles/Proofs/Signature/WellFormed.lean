import TeamRoles.Signature.Printer

/-!
Well-formed signatures: those whose names cannot be mistaken for the marks around them. The depth of
a type is the depth of the recursion that reads it; it is bounded by the length of the text.
-/

namespace TeamRoles.Signature

def NameWithout (marks : List Char) (name : String) : Prop :=
  name ≠ "" ∧ ∀ c ∈ name.toList, c ∉ marks

instance (marks : List Char) (name : String) : Decidable (NameWithout marks name) :=
  inferInstanceAs (Decidable (_ ∧ _))

mutual

def TypeSig.WellFormed : TypeSig → Prop
  | .base _ => True
  | .cls segments => SegmentsWellFormed segments
  | .var name => NameWithout [';'] name
  | .array component => component.WellFormed

/-- The dots in the name of the first segment are those of its package. -/
def SegmentsWellFormed : List Segment → Prop
  | [] => False
  | .mk name args :: inner =>
    NameWithout ['<', ';', '/'] name ∧ ArgsWellFormed args ∧ InnerWellFormed inner

def InnerWellFormed : List Segment → Prop
  | [] => True
  | .mk name args :: inner =>
    NameWithout ['<', '.', ';'] name ∧ ArgsWellFormed args ∧ InnerWellFormed inner

def ArgsWellFormed : List TypeArg → Prop
  | [] => True
  | arg :: args => arg.WellFormed ∧ ArgsWellFormed args

def TypeArg.WellFormed : TypeArg → Prop
  | .any => True
  | .extends bound => bound.WellFormed
  | .super bound => bound.WellFormed
  | .exact type => type.WellFormed

end

def ClassType.WellFormed (c : ClassType) : Prop := c.toTypeSig.WellFormed

structure Formal.WellFormed (p : Formal) : Prop where
  name : NameWithout [':', '>'] p.name
  bounds : ∀ bound ∈ p.bounds, bound.WellFormed

/-- A parameter without a bound is followed by the closing angle, so only the last one may lack it. -/
structure FormalsWellFormed (ps : List Formal) : Prop where
  each : ∀ p ∈ ps, p.WellFormed
  bounded : ∀ p ∈ ps.dropLast, p.bounds ≠ []

structure ClassSig.WellFormed (s : ClassSig) : Prop where
  formals : FormalsWellFormed s.formals
  superclass : s.superclass.WellFormed
  interfaces : ∀ i ∈ s.interfaces, i.WellFormed

structure MethodSig.WellFormed (s : MethodSig) : Prop where
  formals : FormalsWellFormed s.formals
  params : ∀ t ∈ s.params, t.WellFormed
  ret : s.ret.WellFormed
  throws : ∀ t ∈ s.throws, t.WellFormed

mutual

def TypeSig.depth : TypeSig → Nat
  | .base _ => 1
  | .cls segments => segmentsDepth segments + 1
  | .var _ => 1
  | .array component => component.depth + 1

def segmentsDepth : List Segment → Nat
  | [] => 0
  | .mk _ args :: inner => max (argListDepth args) (innerDepth inner) + 1

def innerDepth : List Segment → Nat
  | [] => 1
  | .mk _ args :: inner => max (argListDepth args) (innerDepth inner) + 1

def argListDepth : List TypeArg → Nat
  | [] => 1
  | arg :: args => max arg.depth (argsDepth args) + 2

def argsDepth : List TypeArg → Nat
  | [] => 1
  | arg :: args => max arg.depth (argsDepth args) + 1

def TypeArg.depth : TypeArg → Nat
  | .any => 0
  | .extends bound => bound.depth
  | .super bound => bound.depth
  | .exact type => type.depth

end

theorem TypeSig.print_length_pos (t : TypeSig) : 0 < t.print.length := by
  cases t <;> simp [TypeSig.print]

theorem TypeArg.print_length_pos (a : TypeArg) : 0 < a.print.length := by
  match a with
  | .any => simp [TypeArg.print]
  | .extends bound => simp [TypeArg.print]
  | .super bound => simp [TypeArg.print]
  | .exact type => exact type.print_length_pos

theorem argList_of_ne_nil {cs : List Char} (h : cs ≠ []) : argList cs = '<' :: cs ++ ['>'] := by
  cases cs with
  | nil => contradiction
  | cons c cs => rfl

theorem printArgs_cons_ne_nil (arg : TypeArg) (args : List TypeArg) :
    printArgs (arg :: args) ≠ [] := by
  have := arg.print_length_pos
  apply List.ne_nil_of_length_pos
  rw [printArgs, List.length_append]
  omega

mutual

theorem TypeSig.depth_le (t : TypeSig) : t.depth ≤ 2 * t.print.length := by
  match t with
  | .base b => simp [TypeSig.depth, TypeSig.print]
  | .cls segments =>
    have := segmentsDepth_le segments
    simp only [TypeSig.depth, TypeSig.print, List.length_append, List.length_cons, List.length_nil]
    omega
  | .var name => simp [TypeSig.depth, TypeSig.print]; omega
  | .array component =>
    have := component.depth_le
    simp only [TypeSig.depth, TypeSig.print, List.length_cons]
    omega

theorem segmentsDepth_le (segments : List Segment) :
    segmentsDepth segments ≤ 2 * (printSegments segments).length + 2 := by
  match segments with
  | [] => simp [segmentsDepth]
  | .mk name args :: inner =>
    have := argListDepth_le args
    have := innerDepth_le inner
    simp only [segmentsDepth, printSegments, List.length_append]
    omega

theorem innerDepth_le (inner : List Segment) :
    innerDepth inner ≤ 2 * (printInner inner).length + 1 := by
  match inner with
  | [] => simp [innerDepth]
  | .mk name args :: inner =>
    have := argListDepth_le args
    have := innerDepth_le inner
    simp only [innerDepth, printInner, List.length_append, List.length_cons]
    omega

theorem argListDepth_le (args : List TypeArg) :
    argListDepth args ≤ 2 * (argList (printArgs args)).length + 1 := by
  match args with
  | [] => simp [argListDepth]
  | arg :: args =>
    have := arg.depth_le
    have := argsDepth_le args
    rw [argList_of_ne_nil (printArgs_cons_ne_nil arg args)]
    simp only [argListDepth, printArgs, List.length_append, List.length_cons, List.length_nil]
    omega

theorem argsDepth_le (args : List TypeArg) :
    argsDepth args ≤ 2 * (printArgs args).length + 1 := by
  match args with
  | [] => simp [argsDepth]
  | arg :: args =>
    have := arg.depth_le
    have := arg.print_length_pos
    have := argsDepth_le args
    simp only [argsDepth, printArgs, List.length_append]
    omega

theorem TypeArg.depth_le (a : TypeArg) : a.depth ≤ 2 * a.print.length := by
  match a with
  | .any => simp [TypeArg.depth]
  | .extends bound =>
    have := bound.depth_le
    simp only [TypeArg.depth, TypeArg.print, List.length_cons]
    omega
  | .super bound =>
    have := bound.depth_le
    simp only [TypeArg.depth, TypeArg.print, List.length_cons]
    omega
  | .exact type => exact type.depth_le

end

end TeamRoles.Signature
