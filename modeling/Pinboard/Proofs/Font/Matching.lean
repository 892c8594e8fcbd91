import Pinboard.Font.Measuring

/-!
# The file that is found for a family

The search keeps the best file so far: it comes to the first file whose reduced name is that of the family, or without
one to the first whose reduced name begins with it (`search_eq`). What a book has found stands for every later lookup
of the family, so the log of the lookups is all that the book knows about families (`Log`). Main statement: whatever
was asked of a book before, a family that was not looked up, or only in the same directories, is given its best match
(`locate_bestMatch`).
-/

namespace Pinboard.Font

/-! ## The best match -/

/-- Whether the reduced name of a file is that of a family. -/
def IsNamed (family path : String) : Prop := reduced (stem path) = reduced family

instance (family path : String) : Decidable (IsNamed family path) := inferInstanceAs (Decidable (_ = _))

/-- Whether the reduced name of a file begins with that of a family. -/
def NameBegins (family path : String) : Prop := reduced family <+: reduced (stem path)

instance (family path : String) : Decidable (NameBegins family path) := inferInstanceAs (Decidable (_ <+: _))

/-- The first file that is named after a family, or else the first whose name begins with that of the family. -/
def bestMatch (directories : List Directory) (family : String) : Option String :=
  ((searchOrder directories).find? (IsNamed family ·)).or ((searchOrder directories).find? (NameBegins family ·))

/-! ## Searching -/

section Search

variable {key : List Char} {path : String} {best : Option (Match × String)} {m : Match}

theorem better_of_none (h : matchOf key path = none) : better key best path = best := by
  unfold better
  rw [h]

theorem better_of_beats (h : matchOf key path = some m) (hbeats : m.beats best = true) :
    better key best path = some (m, path) := by
  unfold better
  rw [h]
  exact if_pos hbeats

theorem better_of_not_beats (h : matchOf key path = some m) (hbeats : m.beats best = false) :
    better key best path = best := by
  unfold better
  rw [h]
  exact if_neg (by rw [hbeats]; exact Bool.false_ne_true)

/-- A file whose name is the wanted one stays. -/
theorem foldl_better_of_exact (paths : List String) (found : String) :
    paths.foldl (better key) (some (.exact, found)) = some (.exact, found) := by
  induction paths with
  | nil => rfl
  | cons path paths ih =>
    have hstep : better key (some (.exact, found)) path = some (.exact, found) := by
      cases hm : matchOf key path with
      | none => exact better_of_none hm
      | some m => exact better_of_not_beats hm (by cases m <;> rfl)
    rw [List.foldl_cons, hstep, ih]

/-- A file whose name begins with the wanted one stays unless there is one whose name is the wanted one. -/
theorem foldl_better_of_start (paths : List String) (found : String) :
    (paths.foldl (better key) (some (.start, found))).map Prod.snd
      = (paths.find? (matchOf key · == some .exact)).or (some found) := by
  induction paths with
  | nil => rfl
  | cons path paths ih =>
    rw [List.foldl_cons, List.find?_cons]
    cases hm : matchOf key path with
    | none =>
      rw [better_of_none hm]
      exact ih
    | some m =>
      cases m with
      | exact =>
        rw [better_of_beats hm rfl, foldl_better_of_exact]
        rfl
      | start =>
        rw [better_of_not_beats hm rfl]
        exact ih

theorem foldl_better (paths : List String) :
    (paths.foldl (better key) none).map Prod.snd
      = (paths.find? (matchOf key · == some .exact)).or (paths.find? fun path => (matchOf key path).isSome) := by
  induction paths with
  | nil => rfl
  | cons path paths ih =>
    rw [List.foldl_cons, List.find?_cons, List.find?_cons]
    cases hm : matchOf key path with
    | none =>
      rw [better_of_none hm]
      exact ih
    | some m =>
      cases m with
      | exact =>
        rw [better_of_beats hm rfl, foldl_better_of_exact]
        rfl
      | start =>
        rw [better_of_beats hm rfl]
        exact foldl_better_of_start paths path

end Search

theorem isNamed_iff {family path : String} : IsNamed family path ↔ matchOf (reduced family) path = some .exact := by
  rw [IsNamed, matchOf]
  split <;> simp_all

theorem nameBegins_iff {family path : String} :
    NameBegins family path ↔ (matchOf (reduced family) path).isSome = true := by
  rw [NameBegins, matchOf]
  split <;> simp_all

theorem search_eq (directories : List Directory) (family : String) :
    search directories family = bestMatch directories family := by
  have hnamed : (fun path => decide (IsNamed family path)) = (matchOf (reduced family) · == some .exact) := by
    funext path
    rw [Bool.eq_iff_iff, beq_iff_eq, decide_eq_true_iff, isNamed_iff]
  have hbegins : (fun path => decide (NameBegins family path)) =
      fun path => (matchOf (reduced family) path).isSome := by
    funext path
    rw [Bool.eq_iff_iff, decide_eq_true_iff, nameBegins_iff]
  rw [search, bestMatch, hnamed, hbegins, foldl_better]

/-- Names that are the same in small letters have the same best match. -/
theorem search_congr (directories : List Directory) {family other : String}
    (h : Text.lowercase family = Text.lowercase other) : search directories family = search directories other := by
  have hreduced : reduced family = reduced other := by rw [reduced, reduced, h]
  rw [search, search, hreduced]

theorem mem_searchOrder {directories : List Directory} {family path : String}
    (h : search directories family = some path) : path ∈ searchOrder directories := by
  rw [search_eq, bestMatch, Option.or_eq_some_iff] at h
  rcases h with h | ⟨-, h⟩
  · exact List.mem_of_find?_eq_some h
  · exact List.mem_of_find?_eq_some h

/-- A file that is found has a name. -/
theorem search_ne_empty (directories : List Directory) (family : String) : search directories family ≠ some "" := by
  intro h
  obtain ⟨d, -, hd⟩ := List.mem_flatMap.1 (mem_searchOrder h)
  split at hd
  · have hfont := (List.mem_filter.1 hd).2
    exact absurd hfont (by decide)
  · cases hd

/-! ## Looking up -/

/-- A lookup of a family: the directories it was made in, and the file that was given. -/
structure Lookup where
  directories : List Directory
  family : String
  file : Option String
deriving DecidableEq, Repr

/-- The name of the family in small letters. -/
def Lookup.key (l : Lookup) : String := Text.lowercase l.family

/-- The lookups of families one after the other. -/
def Book.lookups (b : Book) (directories : List Directory) : List String → List Lookup
  | [] => []
  | family :: families =>
    ⟨directories, family, (b.locate directories family).1⟩
      :: (b.locate directories family).2.lookups directories families

/-- A request to a book, with the fonts that there are at the time, and the reply. -/
structure Event where
  shelf : Shelf
  request : Request
  before : Book
  reply : Reply

/-- The requests to a book one after the other. -/
def Book.run (widthOf : Face → String → Computed Binary64) (b : Book) : List (Shelf × Request) → List Event
  | [] => []
  | (shelf, request) :: calls =>
    ⟨shelf, request, b, b.perform widthOf shelf request⟩ :: (b.perform widthOf shelf request).book.run widthOf calls

/-- The book that the requests leave. -/
def Book.after (widthOf : Face → String → Computed Binary64) (b : Book) (calls : List (Shelf × Request)) : Book :=
  calls.foldl (fun b call => (b.perform widthOf call.1 call.2).book) b

/-- The whole size of the font that a request needs. -/
def Request.size? : Request → Option Nat
  | .face size | .width _ size => (wholeSize size).toOption
  | .locate _ | .lineHeight _ => none

/-- The families that are looked up for a request: for a font that has not been opened those of the book. -/
def Book.wanted (b : Book) : Request → List String
  | .locate family => [family]
  | request => match request.size? with
    | none => []
    | some whole => if (b.faces.lookup whole).isSome then [] else b.families

/-- The lookups that are made for a request. -/
def Event.lookups (e : Event) : List Lookup := e.before.lookups e.shelf.directories (e.before.wanted e.request)

/-! ## What a book knows about families -/

section Books

variable {b : Book} {log : List Lookup} (widthOf : Face → String → Computed Binary64)

theorem locate_of_found {family : String} {file : Option String}
    (h : b.files.lookup (Text.lowercase family) = some file) (directories : List Directory) :
    b.locate directories family = (file, b) := by
  unfold Book.locate
  simp only [h]

theorem locate_of_new {family : String} (h : b.files.lookup (Text.lowercase family) = none)
    (directories : List Directory) :
    b.locate directories family = (search directories family,
      { b with files := (Text.lowercase family, search directories family) :: b.files }) := by
  unfold Book.locate
  simp only [h]

theorem locate_fst (b : Book) (directories : List Directory) (family : String) :
    (b.locate directories family).1 = (b.files.lookup (Text.lowercase family)).getD (search directories family) := by
  cases h : b.files.lookup (Text.lowercase family) with
  | some file => rw [locate_of_found h, Option.getD_some]
  | none => rw [locate_of_new h, Option.getD_none]

theorem lookup_files_locate (b : Book) (directories : List Directory) (family key : String) :
    (b.locate directories family).2.files.lookup key = (b.files.lookup key).or
      (if Text.lowercase family == key then some (b.locate directories family).1 else none) := by
  cases h : b.files.lookup (Text.lowercase family) with
  | some file =>
    rw [locate_of_found h]
    by_cases hkey : Text.lowercase family = key
    · rw [← hkey, h, Option.some_or]
    · rw [if_neg (by simpa using hkey), Option.or_none]
  | none =>
    rw [locate_of_new h]
    by_cases hkey : Text.lowercase family = key
    · rw [← hkey, h, Option.none_or, List.lookup_cons_self, beq_self_eq_true, if_pos rfl]
    · have hne : (key == Text.lowercase family) = false := beq_false_of_ne (Ne.symm hkey)
      rw [if_neg (by simpa using hkey), Option.or_none, List.lookup_cons, hne]

theorem locateAll_cons (b : Book) (directories : List Directory) (family : String) (families : List String) :
    (b.locateAll directories (family :: families)).2
      = ((b.locate directories family).2.locateAll directories families).2 := rfl

/-- The log of the lookups made so far, and the files that a book has: for each name in small letters that of its
first lookup, which was searched for and is what all its lookups were given. -/
structure Log (log : List Lookup) (files : List (String × Option String)) : Prop where
  recorded : ∀ key, files.lookup key = (log.find? (·.key == key)).map Lookup.file
  same : ∀ l ∈ log, files.lookup l.key = some l.file
  searched : ∀ key l, log.find? (·.key == key) = some l → l.file = search l.directories l.family

theorem Log.locate (h : Log log b.files) (directories : List Directory) (family : String) :
    Log (log ++ [⟨directories, family, (b.locate directories family).1⟩]) (b.locate directories family).2.files := by
  refine ⟨fun key => ?_, fun l hl => ?_, fun key l hl => ?_⟩
  · rw [lookup_files_locate, h.recorded, List.find?_append, Option.map_or, List.find?_singleton,
      apply_ite (Option.map Lookup.file)]
    rfl
  · rw [lookup_files_locate]
    rcases List.mem_append.1 hl with hl | hl
    · rw [h.same l hl, Option.some_or]
    · rw [List.mem_singleton.1 hl, Lookup.key, locate_fst, beq_self_eq_true, if_pos rfl]
      cases b.files.lookup (Text.lowercase family) <;> rfl
  · rw [List.find?_append, Option.or_eq_some_iff] at hl
    rcases hl with hl | ⟨hnone, hl⟩
    · exact h.searched key l hl
    · rw [List.find?_singleton, Option.ite_none_right_eq_some] at hl
      obtain ⟨hkey, hl⟩ := hl
      cases hl
      have hnew : b.files.lookup (Text.lowercase family) = none := by
        have hlast : Text.lowercase family = key := eq_of_beq hkey
        rw [h.recorded, hlast, hnone, Option.map_none]
      dsimp only
      rw [locate_fst, hnew, Option.getD_none]

theorem Log.locateAll (h : Log log b.files) (directories : List Directory) (families : List String) :
    Log (log ++ b.lookups directories families) (b.locateAll directories families).2.files := by
  induction families generalizing b log with
  | nil => simpa [Book.lookups, Book.locateAll] using h
  | cons family families ih =>
    have hrest := ih (h.locate directories family)
    rwa [List.append_assoc] at hrest

theorem files_perform (b : Book) (shelf : Shelf) (request : Request) :
    (b.perform widthOf shelf request).book.files
      = (b.locateAll shelf.directories (b.wanted request)).2.files := by
  cases request with
  | locate family => rfl
  | lineHeight size => rfl
  | face size | width text size =>
    rw [Book.perform, Book.withFace, Book.wanted, Request.size?]
    · cases wholeSize size with
      | error fault => rfl
      | ok whole =>
        simp only [Book.face, Except.toOption]
        cases b.faces.lookup whole <;> rfl
    · rintro family ⟨⟩

theorem Log.perform (h : Log log b.files) (shelf : Shelf) (request : Request) :
    Log (log ++ Event.lookups ⟨shelf, request, b, b.perform widthOf shelf request⟩)
      (b.perform widthOf shelf request).book.files := by
  rw [files_perform widthOf]
  exact h.locateAll shelf.directories (b.wanted request)

/-- The log of a run follows on that of the lookups before it. -/
theorem Log.run (h : Log log b.files) (calls : List (Shelf × Request)) :
    Log (log ++ (b.run widthOf calls).flatMap Event.lookups) (b.after widthOf calls).files := by
  induction calls generalizing b log with
  | nil => simpa [Book.run, Book.after] using h
  | cons call calls ih =>
    have hrest := ih (h.perform widthOf call.1 call.2)
    rwa [List.append_assoc] at hrest

theorem log_new (families : List String) : Log [] (Book.new families).files :=
  ⟨fun _ => rfl, fun _ hl => absurd hl List.not_mem_nil, fun _ _ hl => by cases hl⟩

end Books

/-- Whatever was asked of a book before, a family is given its best match in the directories, unless its name, in small
or capital letters, was looked up in others. -/
theorem locate_bestMatch (families : List String) (widthOf : Face → String → Computed Binary64)
    (calls : List (Shelf × Request)) (directories : List Directory) (family : String)
    (hnew : ∀ l ∈ ((Book.new families).run widthOf calls).flatMap Event.lookups,
      Text.lowercase l.family = Text.lowercase family → l.directories = directories) :
    (((Book.new families).after widthOf calls).locate directories family).1 = bestMatch directories family := by
  have log := (log_new families).run widthOf calls
  rw [List.nil_append] at log
  rw [locate_fst, ← search_eq]
  cases hfound : ((Book.new families).after widthOf calls).files.lookup (Text.lowercase family) with
  | none => rfl
  | some file =>
    rw [log.recorded, Option.map_eq_some_iff] at hfound
    obtain ⟨l, hl, hfile⟩ := hfound
    have hkey : l.key = Text.lowercase family := by simpa using List.find?_some hl
    have hplace := hnew l (List.mem_of_find?_eq_some hl) hkey
    rw [Option.getD_some, ← hfile, log.searched _ l hl, hplace, search_congr directories hkey]

/-- The first directory is not there, a file of the second one only begins with the name, and the first of two files
that are named after the family is in the third; another family was looked up elsewhere before. -/
theorem locate_bestMatch_behind_prefix :
    (((Book.new plainFamilies).after (fun face text => .ok (face.width text))
        [(⟨[⟨true, ["/x/Arial.ttf", "/x/DejaVuSans.ttf"]⟩], fun _ => true⟩, .locate "Arial")]).locate
        [⟨false, ["/n/DejaVuSans.ttf"]⟩, ⟨true, ["/a/DejaVuSansMono.ttf", "/a/DejaVuSans.pfb"]⟩,
          ⟨true, ["/b/dejavu-sans.ttf", "/b/DejaVuSans.ttf"]⟩] "DejaVu Sans").1
      = some "/b/dejavu-sans.ttf" := by
  refine (locate_bestMatch _ _ _ _ _ fun l hl hkey => ?_).trans (by decide +kernel)
  rw [show List.flatMap Event.lookups _ =
      [⟨[⟨true, ["/x/Arial.ttf", "/x/DejaVuSans.ttf"]⟩], "Arial", some "/x/Arial.ttf"⟩] by decide +kernel,
    List.mem_singleton] at hl
  subst hl
  exact absurd hkey (by decide +kernel)

end Pinboard.Font
