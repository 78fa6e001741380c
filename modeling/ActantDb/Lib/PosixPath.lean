import ActantDb.Lib.Words
import Mathlib.Data.List.Infix

/-!
# POSIX paths

The path functions of a POSIX system on texts, and what a text leads to. `normalize`, `join` and `resolve` work on the segments between slashes; `walk` is where segments lead from a directory, which is named by its segments from the root, and it is not changed by normalisation (`walk_normalize`). Two texts are compared by `startsWith` in many programs: `text_prefix_iff` says that one is a prefix of the other where the place is at or below it, segment by segment, and also where it is beside it under a name that continues its name.
-/

namespace PosixPath

/-! ### The functions -/

def segments (p : List Char) : List (List Char) := p.splitOn '/'

def isAbsolute (p : List Char) : Bool := p.head? = some '/'

/-- One segment more; a `..` that leads above the start is kept where `above` says so. -/
def enter (above : Bool) (stack : List (List Char)) (segment : List Char) : List (List Char) :=
  if segment = [] ∨ segment = ['.'] then stack
  else if segment = ['.', '.'] then
    if stack ≠ [] ∧ stack.getLast? ≠ some ['.', '.'] then stack.dropLast
    else if above then stack ++ [segment]
    else stack
  else stack ++ [segment]

def normalizeString (p : List Char) (above : Bool) : List Char :=
  ['/'].intercalate ((segments p).foldl (enter above) [])

def normalize (p : List Char) : List Char :=
  if p = [] then ['.']
  else
    let path := normalizeString p !isAbsolute p
    if path = [] then
      if isAbsolute p then ['/'] else if p.getLast? = some '/' then ['.', '/'] else ['.']
    else (if isAbsolute p then ['/'] else []) ++ path ++ (if p.getLast? = some '/' then ['/'] else [])

def join (paths : List (List Char)) : List Char := normalize (['/'].intercalate (paths.filter (· ≠ [])))

/-- From the right, up to the first path that is absolute; the directory of the process stands before all. -/
def resolve (processCwd : List Char) (paths : List (List Char)) : List Char :=
  let resolved : List Char × Bool := (processCwd :: paths).foldr
    (fun path acc => if acc.2 ∨ path = [] then acc else (path ++ '/' :: acc.1, isAbsolute path)) ([], false)
  let path := normalizeString resolved.1 !resolved.2
  if resolved.2 then '/' :: path else if path ≠ [] then path else ['.']

example : join ["/w/box".toList, "../a//./b/".toList] = "/w/a/b/".toList := by decide

example : resolve "/home".toList ["x".toList, "../../../y".toList] = "/y".toList := by decide

/-! ### Places -/

/-- Where segments lead from a directory. -/
def walk (start segments : List (List Char)) : List (List Char) := segments.foldl (enter false) start

/-- Where a path leads. -/
def place (start : List (List Char)) (p : List Char) : List (List Char) :=
  walk (if isAbsolute p then [] else start) (segments p)

/-- The text of a directory. -/
def text (dir : List (List Char)) : List Char := '/' :: ['/'].intercalate dir

/-- The name of an entry of a directory. -/
structure Proper (segment : List Char) : Prop where
  ne_nil : segment ≠ []
  ne_dot : segment ≠ ['.']
  ne_dotdot : segment ≠ ['.', '.']
  no_slash : '/' ∉ segment

section Segments

theorem segments_append_slash (p q : List Char) : segments (p ++ '/' :: q) = segments p ++ segments q :=
  List.splitOn_append_cons_self p q

theorem segments_slash (p : List Char) : segments ('/' :: p) = [] :: segments p :=
  segments_append_slash [] p

theorem no_slash_of_mem_segments {p segment : List Char} (h : segment ∈ segments p) : '/' ∉ segment := by
  intro hslash
  rw [segments, List.splitOn_eq_splitOnP] at h
  have hclear := Words.clear_of_mem_splitOnP h '/' hslash
  exact absurd hclear (by decide)

@[simp] theorem enter_nil (above : Bool) (stack : List (List Char)) : enter above stack [] = stack := by
  rw [enter, if_pos (.inl rfl)]

@[simp] theorem walk_nil (start : List (List Char)) : walk start [] = start := rfl

theorem walk_append (start segments segments' : List (List Char)) :
    walk start (segments ++ segments') = walk (walk start segments) segments' :=
  List.foldl_append

theorem walk_cons_nil (start segments : List (List Char)) : walk start ([] :: segments) = walk start segments := by
  rw [walk, List.foldl_cons, enter_nil, walk]

theorem walk_append_nil (start segments : List (List Char)) :
    walk start (segments ++ [[]]) = walk start segments := by
  rw [walk_append, walk_cons_nil, walk_nil]

theorem enter_of_proper {segment : List Char} (h : Proper segment) (above : Bool) (stack : List (List Char)) :
    enter above stack segment = stack ++ [segment] := by
  rw [enter, if_neg (not_or.mpr ⟨h.ne_nil, h.ne_dot⟩), if_neg h.ne_dotdot]

theorem walk_of_proper {dir : List (List Char)} (h : ∀ s ∈ dir, Proper s) (start : List (List Char)) :
    walk start dir = start ++ dir := by
  induction dir generalizing start with
  | nil => rw [walk_nil, List.append_nil]
  | cons s dir ih =>
    have hrest := ih (fun t ht => h t (List.mem_cons_of_mem _ ht)) (start ++ [s])
    rw [walk, List.foldl_cons, enter_of_proper (h s List.mem_cons_self), ← walk, hrest, List.append_assoc,
      List.singleton_append]

/-- What holds of the names that are entered holds of all that stand on the stack. -/
theorem forall_enter {P : List Char → Prop} {above : Bool} {stack : List (List Char)} {segment : List Char}
    (h : ∀ s ∈ stack, P s)
    (hsegment : segment ≠ [] → segment ≠ ['.'] → (segment = ['.', '.'] → above = true) → P segment) :
    ∀ s ∈ enter above stack segment, P s := by
  have hpush (hskip : ¬ (segment = [] ∨ segment = ['.'])) (hup : segment = ['.', '.'] → above = true) :
      ∀ s ∈ stack ++ [segment], P s := by
    intro s hs
    obtain hs | hs := List.mem_append.mp hs
    · exact h s hs
    · obtain rfl := List.mem_singleton.mp hs
      exact hsegment (fun h => hskip (.inl h)) (fun h => hskip (.inr h)) hup
  rw [enter]
  split_ifs with hskip hup hpop habove
  · exact h
  · exact fun s hs => h s (List.mem_of_mem_dropLast hs)
  · exact hpush hskip fun _ => habove
  · exact h
  · exact hpush hskip fun heq => absurd heq hup

theorem forall_foldl_enter {P : List Char → Prop} {above : Bool} {stack segments : List (List Char)}
    (h : ∀ s ∈ stack, P s)
    (hsegments : ∀ s ∈ segments, s ≠ [] → s ≠ ['.'] → (s = ['.', '.'] → above = true) → P s) :
    ∀ s ∈ segments.foldl (enter above) stack, P s := by
  induction segments generalizing stack with
  | nil => exact h
  | cons s segments ih =>
    apply ih
    · exact forall_enter h (hsegments s List.mem_cons_self)
    · exact fun t ht => hsegments t (List.mem_cons_of_mem _ ht)

theorem proper_walk {start segments : List (List Char)} (h : ∀ s ∈ start, Proper s)
    (hslash : ∀ s ∈ segments, '/' ∉ s) : ∀ s ∈ walk start segments, Proper s := by
  apply forall_foldl_enter h
  intro s hs hne hdot hup
  exact ⟨hne, hdot, fun heq => absurd (hup heq) Bool.false_ne_true, hslash s hs⟩

theorem place_absolute {p : List Char} (h : isAbsolute p = true) (start : List (List Char)) :
    place start p = walk [] (segments p) := by
  rw [place, if_pos h]

theorem place_relative {p : List Char} (h : isAbsolute p = false) (start : List (List Char)) :
    place start p = walk start (segments p) := by
  rw [place, h, if_neg Bool.false_ne_true]

theorem place_slash (start : List (List Char)) (p : List Char) : place start ('/' :: p) = walk [] (segments p) := by
  rw [place_absolute rfl, segments_slash, walk_cons_nil]

theorem proper_place {start : List (List Char)} (h : ∀ s ∈ start, Proper s) (p : List Char) :
    ∀ s ∈ place start p, Proper s := by
  rw [place]
  apply proper_walk
  · split
    · exact fun s hs => absurd hs List.not_mem_nil
    · exact h
  · exact fun s hs => no_slash_of_mem_segments hs

theorem walk_segments_intercalate {stack : List (List Char)} (h : ∀ s ∈ stack, '/' ∉ s)
    (start : List (List Char)) : walk start (segments (['/'].intercalate stack)) = walk start stack := by
  by_cases hnil : stack = []
  · rw [hnil]
    rfl
  · rw [segments, List.splitOn_intercalate '/' h hnil]

/-- A directory is where its text leads. -/
theorem place_text {dir : List (List Char)} (h : ∀ s ∈ dir, Proper s) (start : List (List Char)) :
    place start (text dir) = dir := by
  rw [text, place_slash, walk_segments_intercalate fun s hs => (h s hs).no_slash, walk_of_proper h, List.nil_append]

end Segments

/-! ### Normal forms lead to the same place -/

section Normal

/-- A segment of a normal form is not skipped. -/
structure Kept (segment : List Char) : Prop where
  ne_nil : segment ≠ []
  ne_dot : segment ≠ ['.']
  no_slash : '/' ∉ segment

theorem kept_normal (p : List Char) (above : Bool) : ∀ s ∈ (segments p).foldl (enter above) [], Kept s := by
  apply forall_foldl_enter
  · exact fun _ hs => absurd hs List.not_mem_nil
  · exact fun s hs hne hdot _ => ⟨hne, hdot, no_slash_of_mem_segments hs⟩

/-- From a directory, one segment more of a normal form leads where the segment leads. -/
theorem walk_enter {stack : List (List Char)} (h : ∀ s ∈ stack, Kept s) (start : List (List Char)) (segment : List Char) :
    walk start (enter true stack segment) = enter false (walk start stack) segment := by
  have hpush : walk start (stack ++ [segment]) = enter false (walk start stack) segment := by
    rw [walk_append]
    rfl
  by_cases hskip : segment = [] ∨ segment = ['.']
  · rw [enter, if_pos hskip, enter, if_pos hskip]
  by_cases hup : segment = ['.', '.']
  · by_cases hpop : stack ≠ [] ∧ stack.getLast? ≠ some ['.', '.']
    · -- the name that is taken away has been entered
      obtain ⟨before, name, rfl⟩ := (List.eq_nil_or_concat' stack).resolve_left hpop.1
      have hname : name ≠ ['.', '.'] := fun heq => hpop.2 (by rw [List.getLast?_concat, heq])
      have hkept := h name (List.mem_append_right _ List.mem_cons_self)
      have hentered : walk start (before ++ [name]) = walk start before ++ [name] := by
        rw [walk_append, walk, List.foldl_cons, enter, if_neg (not_or.mpr ⟨hkept.ne_nil, hkept.ne_dot⟩),
          if_neg hname]
        rfl
      have hlast : walk start before ++ [name] ≠ [] ∧
          (walk start before ++ [name]).getLast? ≠ some ['.', '.'] := by
        rw [List.getLast?_concat]
        exact ⟨List.append_ne_nil_of_right_ne_nil _ (List.cons_ne_nil _ _), fun h => hname (Option.some.inj h)⟩
      rw [hentered, enter, if_neg hskip, if_pos hup, if_pos hpop, enter, if_neg hskip, if_pos hup, if_pos hlast,
        List.dropLast_concat, List.dropLast_concat]
    · rw [← hpush, enter, if_neg hskip, if_pos hup, if_neg hpop, if_pos rfl]
  · rw [← hpush, enter, if_neg hskip, if_neg hup]

theorem walk_foldl_enter {stack segments : List (List Char)} (h : ∀ s ∈ stack, Kept s)
    (hslash : ∀ s ∈ segments, '/' ∉ s) (start : List (List Char)) :
    walk start (segments.foldl (enter true) stack) = walk (walk start stack) segments := by
  induction segments generalizing stack with
  | nil => rfl
  | cons s segments ih =>
    have hkept : ∀ t ∈ enter true stack s, Kept t :=
      forall_enter h fun hne hdot _ => ⟨hne, hdot, hslash s List.mem_cons_self⟩
    rw [List.foldl_cons, ih hkept fun t ht => hslash t (List.mem_cons_of_mem _ ht), walk_enter h]
    rfl

/-- A normalised text leads where the text leads. -/
theorem walk_normalizeString (p : List Char) (start : List (List Char)) (above : Bool)
    (habove : above = true ∨ start = []) :
    walk start (segments (normalizeString p above)) = walk start (segments p) := by
  have hslash : ∀ s ∈ segments p, '/' ∉ s := fun s hs => no_slash_of_mem_segments hs
  have hnil : ∀ s ∈ ([] : List (List Char)), Kept s := fun _ hs => absurd hs List.not_mem_nil
  rw [normalizeString, walk_segments_intercalate fun s hs => (kept_normal p above s hs).no_slash]
  obtain rfl | rfl := habove
  · rw [walk_foldl_enter hnil hslash, walk_nil]
  · cases above with
    | true => rw [walk_foldl_enter hnil hslash, walk_nil]
    | false =>
      have hproper := proper_walk (fun s hs => absurd hs List.not_mem_nil) hslash
      rw [walk] at hproper
      rw [walk_of_proper hproper, List.nil_append, walk]

theorem walk_trailing (start : List (List Char)) (q : List Char) (trailing : Prop) [Decidable trailing] :
    walk start (segments (q ++ if trailing then ['/'] else [])) = walk start (segments q) := by
  by_cases h : trailing
  · rw [if_pos h, segments_append_slash, segments, segments, List.splitOn_nil, walk_append_nil]
  · rw [if_neg h, List.append_nil]

/-- A normalised text does not begin with a slash. -/
theorem normalizeString_not_absolute (p : List Char) (above : Bool) : isAbsolute (normalizeString p above) = false := by
  have hkept := kept_normal p above
  rw [normalizeString]
  cases hsegments : (segments p).foldl (enter above) [] with
  | nil => rfl
  | cons s rest =>
    obtain ⟨hne, -, hslash⟩ := hkept s (hsegments ▸ List.mem_cons_self)
    obtain ⟨c, cs, rfl⟩ := List.exists_cons_of_ne_nil hne
    have hc : c ≠ '/' := fun heq => hslash (heq ▸ List.mem_cons_self)
    have hhead : (['/'].intercalate ((c :: cs) :: rest)).head? = some c := by
      cases rest with
      | nil => rfl
      | cons next rest => rw [List.intercalate_cons_cons]; rfl
    rw [isAbsolute, hhead, decide_eq_false_iff_not]
    exact fun heq => hc (Option.some.inj heq)

/-- **Normalisation keeps the place.** -/
theorem place_normalize (start : List (List Char)) (p : List Char) : place start (normalize p) = place start p := by
  by_cases hempty : p = []
  · rw [hempty]
    rfl
  have hnil (dir : List (List Char)) : walk dir (segments []) = dir := rfl
  rw [normalize, if_neg hempty]
  cases hp : isAbsolute p with
  | true =>
    have hpath := walk_normalizeString p [] false (.inr rfl)
    simp only [Bool.not_true, if_true]
    rw [place_absolute hp, ← hpath]
    by_cases hroot : normalizeString p false = []
    · rw [if_pos hroot, hroot]
      rfl
    · rw [if_neg hroot, List.singleton_append, List.cons_append, place_slash, walk_trailing]
  | false =>
    have hpath := walk_normalizeString p start true (.inl rfl)
    have hrelative := normalizeString_not_absolute p true
    simp only [Bool.not_false, Bool.false_eq_true, if_false, List.nil_append]
    rw [place_relative hp, ← hpath]
    by_cases hroot : normalizeString p true = []
    · rw [if_pos hroot, hroot, hnil]
      split
      · rfl
      · rfl
    · obtain ⟨c, cs, hcons⟩ := List.exists_cons_of_ne_nil hroot
      have happend (tail : List Char) : isAbsolute (normalizeString p true ++ tail) = false := by
        rw [hcons] at hrelative ⊢
        exact hrelative
      rw [if_neg hroot, place_relative (happend _), walk_trailing]

end Normal

/-! ### Prefixes -/

/-- The place is at or below a directory whose name continues the name of `dir`, and which stands beside it. -/
def Beside : List (List Char) → List (List Char) → Prop
  | [name], other :: _ => name <+: other ∧ name ≠ other
  | name :: next :: dir, other :: place => name = other ∧ Beside (next :: dir) place
  | _, _ => False

instance decidableBeside : ∀ dir place, Decidable (Beside dir place)
  | [], _ => .isFalse id
  | [_], [] => .isFalse id
  | [name], other :: _ => inferInstanceAs (Decidable (name <+: other ∧ name ≠ other))
  | _ :: _ :: _, [] => .isFalse id
  | name :: next :: dir, other :: place =>
    have := decidableBeside (next :: dir) place
    inferInstanceAs (Decidable (name = other ∧ Beside (next :: dir) place))

section Prefixes

variable {name other u v : List Char} {dir place : List (List Char)}

theorem prefix_append_slash_iff (hname : '/' ∉ name) : name <+: other ++ '/' :: v ↔ name <+: other := by
  constructor
  · intro h
    obtain hshort | ⟨more, rfl⟩ := List.prefix_or_prefix_of_prefix h (List.prefix_append other ('/' :: v))
    · exact hshort
    · cases more with
      | nil => rw [List.append_nil]
      | cons c more =>
        rw [List.prefix_append_right_inj, List.cons_prefix_cons] at h
        exact absurd (List.mem_append_right _ (h.1 ▸ List.mem_cons_self)) hname
  · exact fun h => h.trans (List.prefix_append _ _)

theorem append_slash_prefix_iff (hname : '/' ∉ name) (hother : '/' ∉ other) :
    name ++ '/' :: u <+: other ++ '/' :: v ↔ name = other ∧ u <+: v := by
  constructor
  · intro h
    have hle : name <+: other := (prefix_append_slash_iff hname).mp ((List.prefix_append _ _).trans h)
    have hge : other <+: name := by
      obtain hle' | hge' := List.prefix_or_prefix_of_prefix h (List.prefix_append other ('/' :: v))
      · exact absurd (hle'.subset (List.mem_append_right _ List.mem_cons_self)) hother
      · exact (prefix_append_slash_iff hother).mp hge'
    obtain rfl := hle.eq_of_length_le hge.length_le
    rw [List.prefix_append_right_inj, List.cons_prefix_cons] at h
    exact ⟨rfl, h.2⟩
  · rintro ⟨rfl, h⟩
    rw [List.prefix_append_right_inj, List.cons_prefix_cons]
    exact ⟨rfl, h⟩

/-- **The prefix of a text.** -/
theorem text_prefix_iff (hdir : ∀ s ∈ dir, Proper s) (hplace : ∀ s ∈ place, Proper s) :
    text dir <+: text place ↔ dir <+: place ∨ Beside dir place := by
  have hone (s : List Char) : ['/'].intercalate [s] = s := List.intercalate_singleton
  have hmore (s t : List Char) (rest : List (List Char)) :
      ['/'].intercalate (s :: t :: rest) = s ++ '/' :: ['/'].intercalate (t :: rest) := by
    rw [List.intercalate_cons_cons, List.append_assoc, List.singleton_append]
  simp only [text, List.cons_prefix_cons, true_and]
  induction dir generalizing place with
  | nil => exact ⟨fun _ => .inl (List.nil_prefix), fun _ => List.nil_prefix⟩
  | cons name dir ih =>
    have hname := hdir name List.mem_cons_self
    cases place with
    | nil =>
      have hneither : ¬ (name :: dir <+: [] ∨ Beside (name :: dir) []) := by
        rintro (h | h)
        · exact absurd (List.prefix_nil.mp h) (List.cons_ne_nil _ _)
        · cases dir with
          | nil => exact h
          | cons next dir => exact h
      refine ⟨fun h => ?_, fun h => absurd h hneither⟩
      have hempty : ['/'].intercalate (name :: dir) = [] := List.prefix_nil.mp h
      cases dir with
      | nil => exact absurd (hone name ▸ hempty) hname.ne_nil
      | cons next dir =>
        rw [hmore] at hempty
        exact absurd hempty (List.append_ne_nil_of_right_ne_nil _ (List.cons_ne_nil _ _))
    | cons other place =>
      have hother := hplace other List.mem_cons_self
      have hrest : ['/'].intercalate dir <+: ['/'].intercalate place ↔ dir <+: place ∨ Beside dir place :=
        ih (fun s hs => hdir s (List.mem_cons_of_mem _ hs)) fun s hs => hplace s (List.mem_cons_of_mem _ hs)
      cases dir with
      | nil =>
        have hhead : name <+: ['/'].intercalate (other :: place) ↔ name <+: other := by
          cases place with
          | nil => rw [hone]
          | cons next place => rw [hmore, prefix_append_slash_iff hname.no_slash]
        rw [hone, hhead, List.cons_prefix_cons, Beside]
        constructor
        · intro h
          by_cases heq : name = other
          · exact .inl ⟨heq, List.nil_prefix⟩
          · exact .inr ⟨h, heq⟩
        · rintro (⟨rfl, -⟩ | ⟨h, -⟩)
          · exact List.prefix_refl _
          · exact h
      | cons next dir =>
        rw [hmore, List.cons_prefix_cons, Beside, ← and_or_left, ← hrest]
        cases place with
        | nil =>
          rw [hone]
          constructor
          · intro h
            exact absurd (h.subset (List.mem_append_right _ List.mem_cons_self)) hother.no_slash
          · rintro ⟨-, h⟩
            obtain h | h := hrest.mp h
            · exact absurd (List.prefix_nil.mp h) (List.cons_ne_nil _ _)
            · cases dir with
              | nil => exact absurd h id
              | cons next' dir => exact absurd h id
        | cons next' place =>
          rw [hmore, append_slash_prefix_iff hname.no_slash hother.no_slash]

/-- A place beside a directory is not in it. -/
theorem Beside.not_prefix (h : Beside dir place) : ¬ dir <+: place := by
  induction dir generalizing place with
  | nil => exact absurd h id
  | cons name dir ih =>
    cases place with
    | nil => exact fun hle => absurd (List.prefix_nil.mp hle) (List.cons_ne_nil _ _)
    | cons other place =>
      rw [List.cons_prefix_cons]
      cases dir with
      | nil => exact fun heq => h.2 heq.1
      | cons next dir => exact fun heq => ih h.2 heq.2

end Prefixes

/-! ### What is resolved -/

section Resolve

variable (processCwd : List Char)

theorem normalizeString_eq {p : List Char} : '/' :: normalizeString p false = text (walk [] (segments p)) := rfl

theorem ne_nil_of_isAbsolute {p : List Char} (h : isAbsolute p = true) : p ≠ [] := by
  intro hnil
  rw [hnil] at h
  exact absurd h Bool.false_ne_true

/-- An absolute path is resolved to the text of its place. -/
theorem resolve_absolute {p : List Char} (h : isAbsolute p = true) : resolve processCwd [p] = text (place [] p) := by
  have hne := ne_nil_of_isAbsolute h
  rw [place_absolute h]
  simp only [resolve, List.foldr_cons, List.foldr_nil, Bool.false_eq_true, hne, or_self, if_false, h, true_or, if_true,
    Bool.not_true, normalizeString_eq]
  rw [segments_append_slash, segments, segments, List.splitOn_nil, walk_append_nil]

/-- A path is resolved from an absolute base to the text of the place it leads to. -/
theorem resolve_from {base p : List Char} (hbase : isAbsolute base = true) (hp : isAbsolute p = false) :
    resolve processCwd [base, p] = text (place (place [] base) p) := by
  have hne := ne_nil_of_isAbsolute hbase
  rw [place_relative hp, place_absolute hbase]
  by_cases hempty : p = []
  · have hsingle := resolve_absolute processCwd hbase
    rw [place_absolute hbase] at hsingle
    have hskip : resolve processCwd [base, p] = resolve processCwd [base] := by
      rw [hempty]
      rfl
    rw [hskip, hsingle, hempty]
    rfl
  · simp only [resolve, List.foldr_cons, List.foldr_nil, Bool.false_eq_true, hne, hempty, or_self, if_false, hp,
      hbase, true_or, if_true, Bool.not_true, normalizeString_eq]
    rw [segments_append_slash, segments_append_slash, walk_append, walk_append]
    rfl

theorem isAbsolute_append {p : List Char} (h : isAbsolute p = true) (q : List Char) : isAbsolute (p ++ q) = true := by
  cases p with
  | nil => exact absurd h Bool.false_ne_true
  | cons c p => exact h

theorem isAbsolute_normalize {p : List Char} (h : isAbsolute p = true) : isAbsolute (normalize p) = true := by
  have hne := ne_nil_of_isAbsolute h
  rw [normalize, if_neg hne]
  simp only [h, if_true]
  split_ifs
  all_goals rfl

theorem join_pair {p q : List Char} (hp : p ≠ []) (hq : q ≠ []) : join [p, q] = normalize (p ++ '/' :: q) := by
  have hfilter : [p, q].filter (· ≠ []) = [p, q] := by simp [hp, hq]
  rw [join, hfilter, List.intercalate_cons_cons, List.intercalate_singleton, List.append_assoc, List.singleton_append]

theorem isAbsolute_join_pair {p q : List Char} (hp : isAbsolute p = true) (hq : q ≠ []) :
    isAbsolute (join [p, q]) = true := by
  have hne := ne_nil_of_isAbsolute hp
  rw [join_pair hne hq]
  exact isAbsolute_normalize (isAbsolute_append hp ('/' :: q))

theorem join_cons_nil (p : List Char) : join [[], p] = normalize p := by
  have hfilter : [[], p].filter (· ≠ []) = [p].filter (· ≠ []) := rfl
  rw [join, hfilter]
  by_cases hp : p = []
  · rw [hp]
    rfl
  · have hone : [p].filter (· ≠ []) = [p] := by simp [hp]
    rw [hone, List.intercalate_singleton]

/-- A joined path leads on from where its first part leads. -/
theorem place_join_pair (start : List (List Char)) (p q : List Char) (h : p ≠ [] ∨ isAbsolute q = false) :
    place start (join [p, q]) = walk (place start p) (segments q) := by
  by_cases hp : p = []
  · subst hp
    rw [join_cons_nil, place_normalize, place_relative (h.resolve_left (not_not_intro rfl))]
    rfl
  by_cases hq : q = []
  · have hjoin : join [p, q] = normalize p := by
      have hfilter : [p, q].filter (· ≠ []) = [p] := by simp [hp, hq]
      rw [join, hfilter, List.intercalate_singleton]
    rw [hjoin, place_normalize, hq]
    rfl
  rw [join_pair hp hq, place_normalize]
  cases habsolute : isAbsolute p with
  | true =>
    rw [place_absolute (isAbsolute_append habsolute _), place_absolute habsolute, segments_append_slash, walk_append]
  | false =>
    have hrelative : isAbsolute (p ++ '/' :: q) = false := by
      obtain ⟨c, cs, rfl⟩ := List.exists_cons_of_ne_nil hp
      exact habsolute
    rw [place_relative hrelative, place_relative habsolute, segments_append_slash, walk_append]

theorem normalize_ne_nil (p : List Char) : normalize p ≠ [] := by
  rw [normalize]
  dsimp only
  by_cases hpath : normalizeString p (!isAbsolute p) = []
  · rw [if_pos hpath]
    split_ifs
    all_goals exact List.cons_ne_nil _ _
  · rw [if_neg hpath]
    split
    · exact List.cons_ne_nil _ _
    · exact List.append_ne_nil_of_left_ne_nil (List.append_ne_nil_of_right_ne_nil _ hpath) _

end Resolve

end PosixPath
