import Pinboard.Proofs.Font.Matching

/-!
# A book keeps to what it has found

Whatever is asked of a book, and whatever fonts there are each time, a whole size has one font, for which files are
tried only once, and a family has one file, which may be none. Main statement: `run_isStable`. What a book has to know
of the requests before is its history (`History`), which each request continues (`History.perform`).
-/

namespace Pinboard.Font

/-- How files are tried one after the other: the first that can be opened is the last that is tried, and there is
no file if none can be opened. -/
inductive Opening (canOpen : String → Bool) : List String → List String → Option String → Prop
  | found (refused : List String) (file : String) (rest : List String)
    (hrefused : ∀ path ∈ refused, canOpen path = false) (hfile : canOpen file = true) :
    Opening canOpen (refused ++ file :: rest) (refused ++ [file]) (some file)
  | none (candidates : List String) (hrefused : ∀ path ∈ candidates, canOpen path = false) :
    Opening canOpen candidates candidates none

/-- Whether the answer to a request is that of a font. -/
def Event.Shows (widthOf : Face → String → Computed Binary64) (e : Event) (face : Face) : Prop :=
  match e.request with
  | .face _ => e.reply.answer = .ok (.face face)
  | .width text _ => e.reply.answer = Answer.width <$> widthOf face text
  | .locate _ | .lineHeight _ => False

/-- Requests for one whole size are answered by one font, and only for the first of them files are tried: those of the
families that have one, and then the common file. Lookups of a family, in small or capital letters, give one file: what
the search comes to at the first of them. -/
structure IsStable (families : List String) (widthOf : Face → String → Computed Binary64) (events : List Event) :
    Prop where
  same : ∀ e ∈ events, ∀ f ∈ events, ∀ size, e.request.size? = some size → f.request.size? = some size →
    ∃ face, e.Shows widthOf face ∧ f.Shows widthOf face
  once : events.Pairwise fun e f => ∀ size, e.request.size? = some size → f.request.size? = some size →
    f.reply.tried = []
  first : ∀ size e, events.find? (·.request.size? == some size) = some e →
    e.lookups.map Lookup.family = families ∧
      ∃ file, Opening e.shelf.canOpen (e.lookups.filterMap Lookup.file ++ [commonFile]) e.reply.tried file ∧
        e.Shows widthOf ⟨file, size⟩
  idle : ∀ e ∈ events, e.request.size? = none → e.reply.tried = []
  located : ∀ e ∈ events, ∀ family, e.request = .locate family →
    ∃ file, e.lookups = [⟨e.shelf.directories, family, file⟩] ∧ e.reply.answer = .ok (.path file)
  fixed : ∀ l ∈ events.flatMap Event.lookups, ∀ m ∈ events.flatMap Event.lookups,
    Text.lowercase l.family = Text.lowercase m.family → l.file = m.file
  searched : ∀ key l, (events.flatMap Event.lookups).find? (Text.lowercase ·.family == key) = some l →
    l.file = search l.directories l.family

/-! ## Trying files -/

theorem opening_triedFiles (canOpen : String → Bool) (candidates : List String) :
    Opening canOpen candidates (triedFiles canOpen candidates) (candidates.find? canOpen) := by
  induction candidates with
  | nil => exact .none [] (by simp)
  | cons path paths ih =>
    rw [triedFiles, List.find?_cons]
    cases hpath : canOpen path with
    | true => exact .found [] path paths (by simp) hpath
    | false =>
      simp only [Bool.false_eq_true, if_false]
      generalize triedFiles canOpen paths = tried at ih
      generalize paths.find? canOpen = file at ih
      cases ih with
      | found refused file rest hrefused hfile =>
        exact .found (path :: refused) file rest (List.forall_mem_cons.2 ⟨hpath, hrefused⟩) hfile
      | none _ hrefused => exact .none _ (List.forall_mem_cons.2 ⟨hpath, hrefused⟩)

/-! ## Looking families up -/

section Books

variable {b : Book} {log : List Lookup} {families : List String} {widthOf : Face → String → Computed Binary64}
  {shelf : Shelf} {request : Request} {size : Nat} {face : Face}

theorem locate_families (b : Book) (directories : List Directory) (family : String) :
    (b.locate directories family).2.families = b.families := by
  cases h : b.files.lookup (Text.lowercase family) with
  | some file => rw [locate_of_found h]
  | none => rw [locate_of_new h]

theorem locate_faces (b : Book) (directories : List Directory) (family : String) :
    (b.locate directories family).2.faces = b.faces := by
  cases h : b.files.lookup (Text.lowercase family) with
  | some file => rw [locate_of_found h]
  | none => rw [locate_of_new h]

theorem locateAll_families (b : Book) (directories : List Directory) (wanted : List String) :
    (b.locateAll directories wanted).2.families = b.families := by
  induction wanted generalizing b with
  | nil => rfl
  | cons family wanted ih => rw [locateAll_cons, ih, locate_families]

theorem locateAll_faces (b : Book) (directories : List Directory) (wanted : List String) :
    (b.locateAll directories wanted).2.faces = b.faces := by
  induction wanted generalizing b with
  | nil => rfl
  | cons family wanted ih => rw [locateAll_cons, ih, locate_faces]

theorem map_family_lookups (b : Book) (directories : List Directory) (wanted : List String) :
    (b.lookups directories wanted).map Lookup.family = wanted := by
  induction wanted generalizing b with
  | nil => rfl
  | cons family wanted ih => rw [Book.lookups, List.map_cons, ih]

/-- The files that a book has are font files, so they have names. -/
theorem Log.lookup_ne_empty (h : Log log b.files) (key : String) : b.files.lookup key ≠ some (some "") := by
  intro hempty
  rw [h.recorded, Option.map_eq_some_iff] at hempty
  obtain ⟨l, hl, hfile⟩ := hempty
  exact search_ne_empty l.directories l.family ((h.searched key l hl).symm.trans hfile)

theorem Log.locate_ne_empty (h : Log log b.files) (directories : List Directory) (family : String) :
    (b.locate directories family).1 ≠ some "" := by
  have hfile := h.lookup_ne_empty (Text.lowercase family)
  rw [locate_fst]
  cases hfound : b.files.lookup (Text.lowercase family) with
  | some file =>
    rw [hfound] at hfile
    exact fun heq => hfile (congrArg some heq)
  | none => exact search_ne_empty directories family

theorem Log.locateAll_fst (h : Log log b.files) (directories : List Directory) (wanted : List String) :
    (b.locateAll directories wanted).1 = (b.lookups directories wanted).filterMap Lookup.file := by
  induction wanted generalizing b log with
  | nil => rfl
  | cons family wanted ih =>
    have hne := h.locate_ne_empty directories family
    have hrest := ih (h.locate directories family)
    rw [Book.lookups, List.filterMap_cons]
    show ((b.locate directories family).1.filter (· != "")).toList
      ++ ((b.locate directories family).2.locateAll directories wanted).1 = _
    rw [hrest]
    cases hfile : (b.locate directories family).1 with
    | none => rfl
    | some file =>
      have hname : (file != "") = true := bne_iff_ne.2 fun heq => hne (heq ▸ hfile)
      rw [Option.filter_some, if_pos hname]
      rfl

/-! ## Asking for fonts -/

theorem face_of_opened (h : b.faces.lookup size = some face) (shelf : Shelf) :
    b.face shelf size = (face, [], b) := by
  unfold Book.face
  simp only [h]

theorem face_of_new (h : b.faces.lookup size = none) (shelf : Shelf) :
    b.face shelf size =
      (⟨((b.locateAll shelf.directories b.families).1 ++ [commonFile]).find? shelf.canOpen, size⟩,
        triedFiles shelf.canOpen ((b.locateAll shelf.directories b.families).1 ++ [commonFile]),
        { (b.locateAll shelf.directories b.families).2 with
          faces := (size, ⟨((b.locateAll shelf.directories b.families).1 ++ [commonFile]).find? shelf.canOpen, size⟩)
            :: (b.locateAll shelf.directories b.families).2.faces }) := by
  unfold Book.face
  simp only [h]

theorem lookup_faces_face (b : Book) (shelf : Shelf) (size other : Nat) :
    (b.face shelf size).2.2.faces.lookup other = (b.faces.lookup other).or
      (if size = other then some (b.face shelf size).1 else none) := by
  cases h : b.faces.lookup size with
  | some face =>
    rw [face_of_opened h]
    by_cases hsize : size = other
    · rw [← hsize, h, Option.some_or]
    · rw [if_neg hsize, Option.or_none]
  | none =>
    rw [face_of_new h]
    dsimp only
    rw [locateAll_faces]
    by_cases hsize : size = other
    · rw [← hsize, h, Option.none_or, List.lookup_cons_self, if_pos rfl]
    · have hne : (other == size) = false := beq_false_of_ne (Ne.symm hsize)
      rw [if_neg hsize, Option.or_none, List.lookup_cons, hne]

theorem face_families (b : Book) (shelf : Shelf) (size : Nat) : (b.face shelf size).2.2.families = b.families := by
  cases h : b.faces.lookup size with
  | some face => rw [face_of_opened h]
  | none =>
    rw [face_of_new h]
    exact locateAll_families b _ _

/-- A request that needs a font is answered by that font, and leaves what opening it leaves. -/
theorem perform_of_size (b : Book) (widthOf : Face → String → Computed Binary64) (shelf : Shelf)
    (h : request.size? = some size) :
    (b.perform widthOf shelf request).tried = (b.face shelf size).2.1 ∧
      (b.perform widthOf shelf request).book = (b.face shelf size).2.2 ∧
        Event.Shows widthOf ⟨shelf, request, b, b.perform widthOf shelf request⟩ (b.face shelf size).1 := by
  cases request with
  | locate _ | lineHeight _ => cases h
  | face asked | width text asked =>
    rw [Request.size?] at h
    cases hwhole : wholeSize asked with
    | error fault => rw [hwhole] at h; cases h
    | ok whole =>
      rw [hwhole] at h
      cases h
      unfold Event.Shows
      simp only [Book.perform, Book.withFace, hwhole, and_self]

theorem perform_of_no_size (h : request.size? = none) :
    (b.perform widthOf shelf request).tried = [] ∧ (b.perform widthOf shelf request).book.faces = b.faces ∧
      (b.perform widthOf shelf request).book.families = b.families := by
  cases request with
  | locate family => exact ⟨rfl, locate_faces b _ _, locate_families b _ _⟩
  | lineHeight _ => exact ⟨rfl, rfl, rfl⟩
  | face asked | width text asked =>
    rw [Request.size?] at h
    cases hwhole : wholeSize asked with
    | error fault => simp only [Book.perform, Book.withFace, hwhole, and_self]
    | ok whole => rw [hwhole] at h; cases h

theorem families_perform (b : Book) (shelf : Shelf) (request : Request) :
    (b.perform widthOf shelf request).book.families = b.families := by
  cases h : request.size? with
  | none => exact (perform_of_no_size h).2.2
  | some size => rw [(perform_of_size b widthOf shelf h).2.1, face_families]

theorem lookup_faces_perform (b : Book) (shelf : Shelf) (request : Request) (size : Nat) :
    (b.perform widthOf shelf request).book.faces.lookup size = (b.faces.lookup size).or
      (if request.size? = some size then some (b.face shelf size).1 else none) := by
  cases h : request.size? with
  | none => rw [(perform_of_no_size h).2.1, if_neg (by simp), Option.or_none]
  | some asked =>
    rw [(perform_of_size b widthOf shelf h).2.1, lookup_faces_face]
    by_cases hsize : asked = size
    · rw [hsize, if_pos rfl, if_pos rfl]
    · rw [if_neg hsize, if_neg (by simpa using hsize)]

/-! ## The history of a book -/

/-- What has been asked of a book so far, and what the book has of it. -/
structure History (families : List String) (widthOf : Face → String → Computed Binary64) (past : List Event)
    (b : Book) : Prop where
  kept : b.families = families
  log : Log (past.flatMap Event.lookups) b.files
  opened : ∀ e ∈ past, ∀ size, e.request.size? = some size →
    ∃ face, b.faces.lookup size = some face ∧ e.Shows widthOf face
  unopened : ∀ size, past.find? (·.request.size? == some size) = none → b.faces.lookup size = none
  stable : IsStable families widthOf past

variable {past : List Event}

theorem Log.fixed {files : List (String × Option String)} (h : Log log files) :
    ∀ l ∈ log, ∀ m ∈ log, Text.lowercase l.family = Text.lowercase m.family → l.file = m.file := by
  intro l hl m hm hkey
  have hsame : l.key = m.key := hkey
  have hfile := h.same l hl
  rw [hsame, h.same m hm] at hfile
  exact (Option.some.inj hfile).symm

/-- The first request for a size tries the files of the families and the common file. -/
theorem History.opening (h : History families widthOf past b) (hsize : request.size? = some size)
    (hnew : b.faces.lookup size = none) :
    (b.lookups shelf.directories (b.wanted request)).map Lookup.family = families ∧
      ∃ file, Opening shelf.canOpen
          ((b.lookups shelf.directories (b.wanted request)).filterMap Lookup.file ++ [commonFile])
          (b.perform widthOf shelf request).tried file ∧
        Event.Shows widthOf ⟨shelf, request, b, b.perform widthOf shelf request⟩ ⟨file, size⟩ := by
  have hwanted : b.wanted request = b.families := by
    cases request with
    | locate _ | lineHeight _ => cases hsize
    | face _ | width _ _ => simp [Book.wanted, hsize, hnew]
  obtain ⟨htried, -, hshows⟩ := perform_of_size b widthOf shelf hsize
  rw [face_of_new hnew, h.log.locateAll_fst] at htried hshows
  refine ⟨by rw [map_family_lookups, hwanted, h.kept], _, ?_, hshows⟩
  rw [htried, hwanted]
  exact opening_triedFiles _ _

/-- The font of each request for a size is the one that the book has for it, also after one more request. -/
theorem History.opened_perform (h : History families widthOf past b) (shelf : Shelf) (request : Request) :
    ∀ e ∈ past ++ [⟨shelf, request, b, b.perform widthOf shelf request⟩], ∀ size, e.request.size? = some size →
      ∃ face, (b.perform widthOf shelf request).book.faces.lookup size = some face ∧ e.Shows widthOf face := by
  intro e he size hsize
  rw [lookup_faces_perform]
  rcases List.mem_append.1 he with he | he
  · obtain ⟨face, hface, hshows⟩ := h.opened e he size hsize
    exact ⟨face, by rw [hface, Option.some_or], hshows⟩
  · rw [List.mem_singleton] at he
    subst he
    have hrequest : request.size? = some size := hsize
    obtain ⟨-, -, hshows⟩ := perform_of_size b widthOf shelf hrequest
    refine ⟨_, ?_, hshows⟩
    rw [if_pos hrequest]
    cases hface : b.faces.lookup size with
    | none => rw [Option.none_or]
    | some face => rw [Option.some_or, face_of_opened hface]

/-- A request continues the history. -/
theorem History.perform (h : History families widthOf past b) (shelf : Shelf) (request : Request) :
    History families widthOf (past ++ [⟨shelf, request, b, b.perform widthOf shelf request⟩])
      (b.perform widthOf shelf request).book := by
  have hopened := h.opened_perform shelf request
  have hlog := h.log.perform widthOf shelf request
  rw [← List.flatMap_singleton Event.lookups, ← List.flatMap_append] at hlog
  refine ⟨by rw [families_perform, h.kept], hlog, hopened, fun size hnone => ?_, ?_⟩
  · rw [List.find?_append, Option.or_eq_none_iff] at hnone
    obtain ⟨hpast, hlast⟩ := hnone
    have hrequest : ¬request.size? = some size := by simpa using hlast
    rw [lookup_faces_perform, h.unopened size hpast, if_neg hrequest, Option.none_or]
  constructor
  case same =>
    intro e he f hf size hsize hsize'
    obtain ⟨face, hface, hshows⟩ := hopened e he size hsize
    obtain ⟨face', hface', hshows'⟩ := hopened f hf size hsize'
    cases hface.symm.trans hface'
    exact ⟨face, hshows, hshows'⟩
  case once =>
    refine List.pairwise_append.2 ⟨h.stable.once, List.pairwise_singleton _ _, fun e he f hf size hsize hlast => ?_⟩
    rw [List.mem_singleton] at hf
    subst hf
    obtain ⟨face, hface, -⟩ := h.opened e he size hsize
    have hrequest : request.size? = some size := hlast
    rw [(perform_of_size b widthOf shelf hrequest).1, face_of_opened hface]
  case first =>
    intro size e hfirst
    rw [List.find?_append, Option.or_eq_some_iff] at hfirst
    rcases hfirst with hpast | ⟨hnone, hlast⟩
    · exact h.stable.first size e hpast
    · rw [List.find?_singleton, Option.ite_none_right_eq_some] at hlast
      obtain ⟨hsize, hlast⟩ := hlast
      cases hlast
      exact h.opening (eq_of_beq hsize) (h.unopened size hnone)
  case idle =>
    intro e he hsize
    rcases List.mem_append.1 he with he | he
    · exact h.stable.idle e he hsize
    · rw [List.mem_singleton] at he
      subst he
      exact (perform_of_no_size hsize).1
  case located =>
    intro e he family hrequest
    rcases List.mem_append.1 he with he | he
    · exact h.stable.located e he family hrequest
    · rw [List.mem_singleton] at he
      subst he
      have hlast : request = .locate family := hrequest
      subst hlast
      exact ⟨(b.locate shelf.directories family).1, rfl, rfl⟩
  case fixed => exact hlog.fixed
  case searched => exact hlog.searched

theorem History.run (h : History families widthOf past b) (calls : List (Shelf × Request)) :
    History families widthOf (past ++ b.run widthOf calls) (b.after widthOf calls) := by
  induction calls generalizing b past with
  | nil => simpa [Book.run, Book.after] using h
  | cons call calls ih =>
    have hrest := ih (h.perform call.1 call.2)
    rwa [List.append_assoc] at hrest

theorem isStable_nil (families : List String) (widthOf : Face → String → Computed Binary64) :
    IsStable families widthOf [] where
  same _ he := absurd he List.not_mem_nil
  once := .nil
  first _ _ hfirst := by cases hfirst
  idle _ he := absurd he List.not_mem_nil
  located _ he := absurd he List.not_mem_nil
  fixed _ hl := absurd hl List.not_mem_nil
  searched _ _ hl := by cases hl

theorem history_new (families : List String) (widthOf : Face → String → Computed Binary64) :
    History families widthOf [] (Book.new families) :=
  ⟨rfl, log_new families, fun _ he => absurd he List.not_mem_nil, fun _ _ => rfl, isStable_nil families widthOf⟩

end Books

/-- Whatever is asked of a new book, and whatever fonts there are each time, sizes and families keep what was found for
them first. -/
theorem run_isStable (families : List String) (widthOf : Face → String → Computed Binary64)
    (calls : List (Shelf × Request)) : IsStable families widthOf ((Book.new families).run widthOf calls) := by
  have h := (history_new families widthOf).run calls
  exact h.stable

end Pinboard.Font
