import JinCore.Js.LowerCase
import JinCore.Js.Path
import JinCore.Js.Uri

/-!
# The static server of a preview (`STATIC_SERVER_SOURCE`, `preview-template.logic.ts`)

* `safePath`, `fileAt`, `serve`   the path of a request, the file for a path, the handler;
* `Inside`                        the root, or visible names below it;
* `safePath_inside`               what `safePath` returns is inside;
* `inside_index`                  and the index file of a directory that is inside is inside;
* `stays_inside`                  the handler reads no file that is not.
-/

namespace StaticServer
open JsString PosixPath

/-! ## the server -/

/-- what `stat` says of a path -/
inductive FileKind where
  | file | directory | other
  deriving DecidableEq, Repr

/-- none where the call throws -/
structure FileSystem where
  stat : List UInt16 → Option FileKind
  readFile : List UInt16 → Option (List UInt8)

structure Request where
  method : JsString
  url : Option JsString

structure Response where
  status : Nat
  headers : List (JsString × JsString)
  body : List UInt8
  deriving DecidableEq, Repr

/-- the path given to `readFile` and the answer; a file that cannot be read leaves none -/
structure Exchange where
  read : Option (List UInt16)
  response : Option Response
  deriving DecidableEq, Repr

def types : List (JsString × JsString) := [
  (lit ".html", lit "text/html; charset=utf-8"),
  (lit ".js", lit "text/javascript; charset=utf-8"),
  (lit ".mjs", lit "text/javascript; charset=utf-8"),
  (lit ".jsx", lit "text/javascript; charset=utf-8"),
  (lit ".css", lit "text/css; charset=utf-8"),
  (lit ".json", lit "application/json; charset=utf-8"),
  (lit ".svg", lit "image/svg+xml"),
  (lit ".png", lit "image/png"),
  (lit ".jpg", lit "image/jpeg"),
  (lit ".jpeg", lit "image/jpeg"),
  (lit ".gif", lit "image/gif"),
  (lit ".webp", lit "image/webp"),
  (lit ".ico", lit "image/x-icon"),
  (lit ".txt", lit "text/plain; charset=utf-8"),
  (lit ".md", lit "text/plain; charset=utf-8")]

def indexHtml : List UInt16 := (lit "index.html").units

def wellKnown : List UInt16 := (lit ".well-known").units

def hidden (part : List UInt16) : Bool := decide (part.head? = some 0x2E ∧ part ≠ wellKnown)

section
variable (cwd : List UInt16)

/-- `ROOT` -/
def root : List UInt16 := resolve cwd cwd

def safePath (urlPath : JsString) : Option (List UInt16) :=
  (decodeURIComponent ⟨urlPath.units.takeWhile (· ≠ 0x3F)⟩).bind fun decoded =>
    let full := resolve cwd (join (root cwd) (normalize decoded.units))
    if full ≠ root cwd ∧ ¬ root cwd ++ [slash] <+: full then none
    else
      let relative := ((full.drop (root cwd).length).splitOn slash).filter (· ≠ [])
      if relative.any hidden then none else some full

def fileAt (fs : FileSystem) (path : List UInt16) : Option (List UInt16) :=
  match fs.stat path with
  | some .file => some path
  | some .directory =>
    let index := join path indexHtml
    if fs.stat index = some .file then some index else none
  | _ => none

/-- the file for a path that is safe; one without an extension falls back to the page of the root -/
def fileFor (fs : FileSystem) (requested : List UInt16) : Option (List UInt16) :=
  match fileAt fs requested with
  | some file => some file
  | none => if extname requested = [] then fileAt fs (join (root cwd) indexHtml) else none

def nosniff : JsString × JsString := (lit "X-Content-Type-Options", lit "nosniff")

def notFound : Exchange := ⟨none, some ⟨404, [nosniff], (lit "No encontrado").utf8⟩⟩

def contentType (casing : CaseMapping) (file : List UInt16) : JsString :=
  (types.lookup (toLowerCase casing ⟨extname file⟩)).getD (lit "application/octet-stream")

def serve (casing : CaseMapping) (fs : FileSystem) (req : Request) : Exchange :=
  if req.method ≠ lit "GET" ∧ req.method ≠ lit "HEAD" then
    ⟨none, some ⟨405, [nosniff, (lit "Allow", lit "GET, HEAD")], []⟩⟩
  else
    match safePath cwd (req.url.getD (lit "/")) with
    | none => notFound
    | some requested =>
      match fileFor cwd fs requested with
      | none => notFound
      | some file =>
        ⟨some file, (fs.readFile file).map fun body =>
          ⟨200, [nosniff, (lit "Content-Type", contentType casing file),
            (lit "Cache-Control", lit "no-cache")], if req.method = lit "HEAD" then [] else body⟩⟩

/-! ## inside the root -/

/-- the root followed by names, none of them hidden -/
def Inside (path : List UInt16) : Prop :=
  ∃ below : List (List UInt16), (∀ part ∈ below, IsName part ∧ (part.head? = some 0x2E → part = wellKnown)) ∧
    path = root cwd ++ below.flatMap (slash :: ·)

theorem isName_indexHtml : IsName indexHtml := by constructor <;> decide

theorem visible_indexHtml : indexHtml.head? = some 0x2E → indexHtml = wellKnown := by decide

variable {cwd}

section
variable {names : List (List UInt16)} (hnames : ∀ s ∈ names, IsName s) (hroot : root cwd = absolute names)
  (hne : names ≠ [])
include hnames hroot hne

/-- what is inside is the path of its names -/
theorem inside_absolute {below : List (List UInt16)} :
    root cwd ++ below.flatMap (slash :: ·) = absolute (names ++ below) := by
  rw [hroot, absolute_flatMap hne, absolute_flatMap (List.append_ne_nil_of_left_ne_nil hne below),
    List.flatMap_append]

/-- the index file of a directory -/
theorem inside_index {path : List UInt16} (h : Inside cwd path) : Inside cwd (join path indexHtml) := by
  obtain ⟨below, hbelow, rfl⟩ := h
  refine ⟨below ++ [indexHtml], fun part hpart => ?_, ?_⟩
  · rcases List.mem_append.mp hpart with hpart | hpart
    · exact hbelow part hpart
    · rw [List.mem_singleton.mp hpart]
      exact ⟨isName_indexHtml, visible_indexHtml⟩
  · have hall : ∀ s ∈ names ++ below, IsName s := by
      intro s hs
      rcases List.mem_append.mp hs with hs | hs
      · exact hnames s hs
      · exact (hbelow s hs).1
    rw [inside_absolute hnames hroot hne, inside_absolute hnames hroot hne,
      join_absolute hall isName_indexHtml, List.append_assoc]

theorem inside_root : Inside cwd (root cwd) :=
  ⟨[], fun _ h => absurd h List.not_mem_nil, (List.append_nil _).symm⟩

/-- a path that `safePath` lets through -/
theorem safePath_inside {urlPath : JsString} {full : List UInt16} (h : safePath cwd urlPath = some full) :
    Inside cwd full := by
  obtain ⟨decoded, -, h⟩ := Option.bind_eq_some_iff.mp h
  have habsolute : isAbsolute (root cwd) = true := by
    rw [hroot]
    rfl
  obtain ⟨below, hbelow, hfull⟩ := resolve_absolute (isAbsolute_join habsolute (normalize decoded.units)) cwd
  simp only [hfull] at h
  split at h
  · cases h
  · next hprefix =>
    split at h
    · cases h
    · next hhidden =>
      rw [← Option.some.inj h]
      by_cases heq : absolute below = root cwd
      · rw [heq]
        exact inside_root hnames hroot hne
      · have hpre : root cwd ++ [slash] <+: absolute below := by
          by_contra hpre
          exact hprefix ⟨heq, hpre⟩
        obtain ⟨tail, htail⟩ := hpre
        rw [List.append_assoc, List.singleton_append] at htail
        have hparts : below = names ++ tail.splitOn slash :=
          below_absolute hnames hne hbelow (by rw [← htail, hroot])
        have hpart {part : List UInt16} (hpart : part ∈ tail.splitOn slash) : IsName part :=
          hbelow part (hparts ▸ List.mem_append_right names hpart)
        refine ⟨tail.splitOn slash, fun part hp => ⟨hpart hp, fun hdot => ?_⟩, ?_⟩
        · by_contra hvisible
          refine hhidden (List.any_eq_true.mpr ⟨part, List.mem_filter.mpr ⟨?_, ?_⟩, ?_⟩)
          · rw [← htail, List.drop_left, ← List.nil_append (slash :: tail), List.splitOn_append_cons_self]
            exact List.mem_append_right _ hp
          · exact decide_eq_true (hpart hp).ne_nil
          · exact decide_eq_true ⟨hdot, hvisible⟩
        · rw [inside_absolute hnames hroot hne, hparts]

/-- a file for a path that is inside -/
theorem fileAt_inside {fs : FileSystem} {path file : List UInt16} (hpath : Inside cwd path)
    (h : fileAt fs path = some file) : Inside cwd file := by
  rw [fileAt] at h
  split at h
  · rw [← Option.some.inj h]
    exact hpath
  · simp only [Option.ite_none_right_eq_some, Option.some.injEq] at h
    rw [← h.2]
    exact inside_index hnames hroot hne hpath
  · cases h

theorem fileFor_inside {fs : FileSystem} {path file : List UInt16} (hpath : Inside cwd path)
    (h : fileFor cwd fs path = some file) : Inside cwd file := by
  rw [fileFor] at h
  split at h
  · next hfile =>
    rw [← Option.some.inj h]
    exact fileAt_inside hnames hroot hne hpath hfile
  · rw [Option.ite_none_right_eq_some] at h
    exact fileAt_inside hnames hroot hne
      (inside_index hnames hroot hne (inside_root hnames hroot hne)) h.2

/-- the handler -/
theorem serve_inside (casing : CaseMapping) (fs : FileSystem) (req : Request) {file : List UInt16}
    (h : (serve cwd casing fs req).read = some file) : Inside cwd file := by
  rw [serve] at h
  split at h
  · cases h
  · split at h
    · cases h
    · next requested hsafe =>
      split at h
      · cases h
      · next hfile =>
        rw [← Option.some.inj h]
        exact fileFor_inside hnames hroot hne (safePath_inside hnames hroot hne hsafe) hfile

end

/-- **Nothing outside the root is read**: neither a path of `safePath` nor a file of the handler, the
index file of a directory and the fallback included, leaves the root or has a hidden name below it. -/
theorem stays_inside (habsolute : isAbsolute cwd = true) (hroot : root cwd ≠ [slash]) :
    (∀ urlPath full, safePath cwd urlPath = some full → Inside cwd full) ∧
      ∀ casing fs req file, (serve cwd casing fs req).read = some file → Inside cwd file := by
  obtain ⟨names, hnames, heq⟩ := resolve_absolute habsolute cwd
  have hne : names ≠ [] := by
    intro hnil
    exact hroot (by rw [root, heq, hnil]; rfl)
  exact ⟨fun _ _ h => safePath_inside hnames heq hne h,
    fun casing fs req _ h => serve_inside hnames heq hne casing fs req h⟩

end

/-- of `/workspace`, where the previews run -/
theorem stays_inside_workspace : Inside (lit "/workspace").units (lit "/workspace/b/.well-known").units :=
  (stays_inside (by decide) (by decide)).1 (lit "/a/%2e%2e/b//.well-known/?x=..") _ (by decide +kernel)

example : safePath (lit "/workspace").units (lit "/a/..%2F.env") = none := by decide +kernel

end StaticServer
