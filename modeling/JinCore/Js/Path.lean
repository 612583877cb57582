import JinCore.Js.Text
import Mathlib.Data.List.Basic

/-!
# POSIX paths (`node:path`)

* `normalizeSegments`    a list of segments without the empty ones, `.` and `..`;
* `normalize`, `join`, `resolve`, `extname`;
* `absolute`             the path of a list of names;
* `resolve_absolute`     what `resolve` returns for an absolute path is one;
* `join_absolute`        a name behind such a path;
* `below_absolute`       the names of a path that begins with such a path and a slash.
-/

namespace PosixPath
open JsString

def slash : UInt16 := 0x2F

def dot : List UInt16 := [0x2E]

def dotDot : List UInt16 := [0x2E, 0x2E]

/-! ## the functions -/

/-- one segment more; `..` takes the last one back, if it is no `..` itself -/
def pushSegment (allowAboveRoot : Bool) (segments : List (List UInt16)) (segment : List UInt16) :
    List (List UInt16) :=
  if segment = [] ∨ segment = dot then segments
  else if segment = dotDot then
    if segments ≠ [] ∧ segments.getLast? ≠ some dotDot then segments.dropLast
    else if allowAboveRoot then segments ++ [dotDot] else segments
  else segments ++ [segment]

def normalizeSegments (allowAboveRoot : Bool) (segments : List (List UInt16)) : List (List UInt16) :=
  segments.foldl (pushSegment allowAboveRoot) []

def joined (segments : List (List UInt16)) : List UInt16 := [slash].intercalate segments

def normalizeString (allowAboveRoot : Bool) (path : List UInt16) : List UInt16 :=
  joined (normalizeSegments allowAboveRoot (path.splitOn slash))

def isAbsolute (path : List UInt16) : Bool := path.head? == some slash

def normalize (path : List UInt16) : List UInt16 :=
  if path = [] then dot
  else
    let tail := if path.getLast? = some slash then [slash] else []
    let string := normalizeString (!isAbsolute path) path
    if isAbsolute path then slash :: if string = [] then [] else string ++ tail
    else if string = [] then dot ++ tail else string ++ tail

/-- of two arguments -/
def join (a b : List UInt16) : List UInt16 :=
  match [a, b].filter (· ≠ []) with
  | [] => dot
  | paths => normalize (joined paths)

/-- of one argument; `cwd` is the working directory -/
def resolve (cwd path : List UInt16) : List UInt16 :=
  let resolved := if isAbsolute path then path else cwd ++ slash :: path
  let string := normalizeString (!isAbsolute resolved) resolved
  if isAbsolute resolved then slash :: string else if string = [] then dot else string

/-- the last segment, without the slashes at the end -/
def baseSegment (path : List UInt16) : List UInt16 :=
  ((path.reverse.dropWhile (· = slash)).takeWhile (· ≠ slash)).reverse

/-- from the last dot of the last segment on, unless that is its first unit -/
def extname (path : List UInt16) : List UInt16 :=
  let base := baseSegment path
  let suffix := (base.reverse.takeWhile (· ≠ 0x2E)).reverse
  if base = dotDot ∨ base.length ≤ suffix.length + 1 then [] else 0x2E :: suffix

/-! ## names -/

/-- a segment that names a file or a directory -/
structure IsName (segment : List UInt16) : Prop where
  ne_nil : segment ≠ []
  ne_dot : segment ≠ dot
  ne_dotDot : segment ≠ dotDot
  slash_notMem : slash ∉ segment

/-- the path of these names -/
def absolute (names : List (List UInt16)) : List UInt16 := slash :: joined names

theorem slash_notMem_splitOn (path : List UInt16) : ∀ s ∈ path.splitOn slash, slash ∉ s := by
  induction path with
  | nil => simp
  | cons u path ih =>
    obtain ⟨head, rest, hsplit⟩ := List.exists_cons_of_ne_nil (List.splitOn_ne_nil slash path)
    rw [List.splitOn_cons_eq_if_modifyHead]
    rw [hsplit] at ih ⊢
    by_cases hu : u = slash
    · simp only [hu, beq_self_eq_true, if_true]
      intro s hs
      rcases List.mem_cons.mp hs with rfl | hs
      · exact List.not_mem_nil
      · exact ih s hs
    · have hbeq : (u == slash) = false := beq_false_of_ne hu
      simp only [hbeq, Bool.false_eq_true, if_false, List.modifyHead_cons]
      intro s hs
      rcases List.mem_cons.mp hs with rfl | hs
      · rw [List.mem_cons, not_or]
        exact ⟨Ne.symm hu, ih head List.mem_cons_self⟩
      · exact ih s (List.mem_cons_of_mem _ hs)

theorem pushSegment_names {segments : List (List UInt16)} (h : ∀ s ∈ segments, IsName s)
    {segment : List UInt16} (hslash : slash ∉ segment) :
    ∀ s ∈ pushSegment false segments segment, IsName s := by
  rw [pushSegment]
  split
  · exact h
  · next hdot =>
    rw [not_or] at hdot
    split
    · split
      · exact fun s hs => h s (List.dropLast_subset _ hs)
      · exact h
    · next hdotDot =>
      intro s hs
      rcases List.mem_append.mp hs with hs | hs
      · exact h s hs
      · rw [List.mem_singleton.mp hs]
        exact ⟨hdot.1, hdot.2, hdotDot, hslash⟩

theorem normalizeSegments_names {segments : List (List UInt16)} (h : ∀ s ∈ segments, slash ∉ s) :
    ∀ s ∈ normalizeSegments false segments, IsName s := by
  have hfold (names : List (List UInt16)) (hnames : ∀ s ∈ names, IsName s) :
      ∀ s ∈ segments.foldl (pushSegment false) names, IsName s := by
    induction segments generalizing names with
    | nil => exact hnames
    | cons segment segments ih =>
      exact ih (fun s hs => h s (List.mem_cons_of_mem _ hs)) _
        (pushSegment_names hnames (h segment List.mem_cons_self))
  exact hfold [] fun s hs => absurd hs List.not_mem_nil

/-- names stay as they are -/
theorem normalizeSegments_of_names {names : List (List UInt16)} (h : ∀ s ∈ names, IsName s)
    (allowAboveRoot : Bool) : normalizeSegments allowAboveRoot names = names := by
  have hfold (before : List (List UInt16)) :
      names.foldl (pushSegment allowAboveRoot) before = before ++ names := by
    induction names generalizing before with
    | nil => exact (List.append_nil _).symm
    | cons name names ih =>
      have hname := h name List.mem_cons_self
      have hpush : pushSegment allowAboveRoot before name = before ++ [name] := by
        rw [pushSegment, if_neg (not_or.mpr ⟨hname.ne_nil, hname.ne_dot⟩), if_neg hname.ne_dotDot]
      rw [List.foldl_cons, hpush, ih fun s hs => h s (List.mem_cons_of_mem _ hs), List.append_assoc]
      rfl
  exact hfold []

/-! ## absolute paths -/

section
variable {names : List (List UInt16)}

theorem absolute_cons (hne : names ≠ []) : absolute names = [slash].intercalate ([] :: names) := by
  obtain ⟨name, rest, rfl⟩ := List.exists_cons_of_ne_nil hne
  rw [List.intercalate_cons_cons]
  rfl

/-- with a slash before each name -/
theorem absolute_flatMap (hne : names ≠ []) : absolute names = names.flatMap (slash :: ·) := by
  induction names with
  | nil => exact absurd rfl hne
  | cons name rest ih =>
    by_cases hrest : rest = []
    · rw [hrest]
      simp [absolute, joined]
    · have htail : absolute (name :: rest) = slash :: name ++ absolute rest := by
        show slash :: joined (name :: rest) = slash :: name ++ slash :: joined rest
        rw [joined, List.intercalate_cons_of_ne_nil hrest, List.append_assoc]
        rfl
      rw [htail, ih hrest, List.flatMap_cons]

theorem splitOn_absolute (h : ∀ s ∈ names, IsName s) (hne : names ≠ []) :
    (absolute names).splitOn slash = [] :: names := by
  rw [absolute_cons hne]
  refine List.splitOn_intercalate slash (fun s hs => ?_) (List.cons_ne_nil _ _)
  rcases List.mem_cons.mp hs with rfl | hs
  · exact List.not_mem_nil
  · exact (h s hs).slash_notMem

/-- an absolute path is read as its names -/
theorem normalizeSegments_absolute (h : ∀ s ∈ names, IsName s) (allowAboveRoot : Bool) :
    normalizeSegments allowAboveRoot ((absolute names).splitOn slash) = names := by
  by_cases hne : names = []
  · rw [hne]
    rfl
  · rw [splitOn_absolute h hne]
    exact normalizeSegments_of_names h allowAboveRoot

theorem isAbsolute_absolute (names : List (List UInt16)) : isAbsolute (absolute names) = true := rfl

/-- what `resolve` returns for an absolute path -/
theorem resolve_absolute {path : List UInt16} (h : isAbsolute path = true) (cwd : List UInt16) :
    ∃ names, (∀ s ∈ names, IsName s) ∧ resolve cwd path = absolute names := by
  refine ⟨normalizeSegments false (path.splitOn slash),
    normalizeSegments_names (slash_notMem_splitOn path), ?_⟩
  simp only [resolve, h, if_true, Bool.not_true]
  rfl

theorem isAbsolute_normalize {path : List UInt16} (h : isAbsolute path = true) :
    isAbsolute (normalize path) = true := by
  have hne : path ≠ [] := by
    intro hnil
    rw [hnil] at h
    cases h
  simp only [normalize, if_neg hne, h, if_true]
  rfl

theorem isAbsolute_join {path : List UInt16} (h : isAbsolute path = true) (more : List UInt16) :
    isAbsolute (join path more) = true := by
  have hne : path ≠ [] := by
    intro hnil
    rw [hnil] at h
    cases h
  obtain ⟨u, us, rfl⟩ := List.exists_cons_of_ne_nil hne
  rw [join]
  by_cases hmore : more = []
  · simp only [hmore, ne_eq, decide_not, List.filter_cons]
    exact isAbsolute_normalize h
  · simp only [hmore, ne_eq, decide_not, List.filter_cons]
    exact isAbsolute_normalize h

/-- a name behind an absolute path -/
theorem join_absolute (h : ∀ s ∈ names, IsName s) {name : List UInt16} (hname : IsName name) :
    join (absolute names) name = absolute (names ++ [name]) := by
  have hlast : (absolute names ++ slash :: name).getLast? ≠ some slash := by
    rw [List.getLast?_append_of_ne_nil _ (List.cons_ne_nil _ _),
      List.getLast?_cons_of_ne_nil hname.ne_nil]
    exact fun hlast => hname.slash_notMem (List.mem_of_getLast? hlast)
  have hsegments : normalizeSegments false ((absolute names ++ slash :: name).splitOn slash)
      = names ++ [name] := by
    rw [List.splitOn_append_cons_self, List.splitOn_eq_singleton hname.slash_notMem, normalizeSegments,
      List.foldl_append]
    show pushSegment false (normalizeSegments false ((absolute names).splitOn slash)) name = _
    rw [normalizeSegments_absolute h, pushSegment,
      if_neg (not_or.mpr ⟨hname.ne_nil, hname.ne_dot⟩), if_neg hname.ne_dotDot]
  have hjoined : joined (names ++ [name]) ≠ [] := by
    intro hnil
    have hall : ∀ s ∈ names ++ [name], slash ∉ s := by
      intro s hs
      rcases List.mem_append.mp hs with hs | hs
      · exact (h s hs).slash_notMem
      · rw [List.mem_singleton.mp hs]
        exact hname.slash_notMem
    have hsplit := List.splitOn_intercalate slash hall (by simp)
    rw [← joined, hnil, List.splitOn_nil] at hsplit
    have hmem : name ∈ [([] : List UInt16)] := hsplit ▸ List.mem_append_right names (by simp)
    exact hname.ne_nil (List.mem_singleton.mp hmem)
  have hjoin : join (absolute names) name = normalize (absolute names ++ slash :: name) := by
    have hfilter : [absolute names, name].filter (· ≠ []) = [absolute names, name] := by
      simp [absolute, hname.ne_nil]
    rw [join, hfilter]
    show normalize (joined [absolute names, name]) = _
    rw [joined, List.intercalate_cons_cons, List.intercalate_singleton, List.append_assoc]
    rfl
  have hne : absolute names ++ slash :: name ≠ [] := List.cons_ne_nil _ _
  have habsolute : isAbsolute (absolute names ++ slash :: name) = true := rfl
  rw [hjoin, normalize, if_neg hne]
  simp only [habsolute, Bool.not_true, if_true, if_neg hlast, List.append_nil]
  rw [normalizeString, hsegments, if_neg hjoined]
  rfl

/-- a path that begins with an absolute path and a slash -/
theorem below_absolute {below : List (List UInt16)} (h : ∀ s ∈ names, IsName s) (hne : names ≠ [])
    (hbelow : ∀ s ∈ below, IsName s) {tail : List UInt16}
    (heq : absolute below = absolute names ++ slash :: tail) :
    below = names ++ tail.splitOn slash := by
  have hsplit := congrArg (List.splitOn slash) heq
  have hbelow' : below ≠ [] := by
    intro hnil
    rw [hnil] at heq
    have hlength := congrArg List.length heq
    obtain ⟨name, rest, rfl⟩ := List.exists_cons_of_ne_nil hne
    simp [absolute, joined] at hlength
  rw [splitOn_absolute hbelow hbelow', List.splitOn_append_cons_self, splitOn_absolute h hne,
    List.cons_append, List.cons.injEq] at hsplit
  exact hsplit.2

end

end PosixPath
