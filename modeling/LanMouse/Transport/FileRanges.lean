import LanMouse.Transport.Router

/-!
# Parts of a file

A receiver can fetch a file in parts. Each part is cut out of the file within its bounds, so
consecutive parts put together are the file.
-/
namespace LanMouse.Transport.Http3

open Bytes Proto Text Clipboard

theorem parseRangeQuery_single {value : List Char} (single : '&' ∉ value) :
    parseRangeQuery ("range=".toList ++ value) = parseRangeValue value := by
  have one : ("range=".toList ++ value).splitOn '&' = ["range=".toList ++ value] :=
    List.splitOn_eq_singleton (by simp [single])
  have found : rangeValue ("range=".toList ++ value) = some value :=
    rangeValue_eq_some_iff.mpr rfl
  rw [parseRangeQuery_eq, rangeValues, one, List.filterMap_cons_some found]
  rfl

theorem IsRange.not_mem {value : List Char} {start last : Nat} (range : IsRange value start last)
    {c : Char} (sign : c.isDigit = false) (other : c ≠ '-') : c ∉ value := by
  cases range with
  | closed first second le fits =>
    have inFirst := first.not_mem sign
    have inSecond := second.not_mem sign
    simp [inFirst, inSecond, other]
  | opened first fits =>
    have inFirst := first.not_mem sign
    simp [inFirst, other]

theorem IsRange.parseRangeQuery {value : List Char} {start last : Nat}
    (range : IsRange value start last) :
    parseRangeQuery ("range=".toList ++ value) = .valid start last := by
  rw [parseRangeQuery_single (range.not_mem (by decide) (by decide))]
  exact parseRangeValue_eq_valid_iff.mpr (isRange_iff.mp range).1

theorem le_of_parseRangeQuery {query : List Char} {start last : Nat}
    (valid : parseRangeQuery query = .valid start last) : start ≤ last := by
  rw [parseRangeQuery_eq] at valid
  split at valid
  · cases valid
  · cases lenient_of_parseRangeValue valid with
    | closed first second le fits => exact le
    | opened first fits => exact fits
    | doubled first fits => exact fits

/-- The answer to a range, which is never cut out of bounds. -/
theorem rangeResponse_of_valid {query : List Char} {start last : Nat}
    (valid : parseRangeQuery query = .valid start last) (body : List UInt8) :
    rangeResponse (some query) body = .ok (if body.length ≤ start then .rangeNotSatisfiable
      else .ok (slice body start (min last (body.length - 1) + 1))) := by
  have le := le_of_parseRangeQuery valid
  rw [rangeResponse]
  dsimp only
  rw [valid]
  dsimp only
  by_cases past : body.length ≤ start
  · rw [if_pos past, if_pos past]
  · have inside : ¬ start > min last (body.length - 1) := by omega
    rw [if_neg past, if_neg past, if_neg inside, index_eq (by omega) (by omega)]
    rfl

theorem rangeResponse_ok (query : Option (List Char)) (body : List UInt8) :
    ∃ response, rangeResponse query body = .ok response := by
  cases query with
  | none => exact ⟨_, rfl⟩
  | some query =>
    cases parsed : parseRangeQuery query with
    | none => exact ⟨_, by rw [rangeResponse]; dsimp only; rw [parsed]⟩
    | invalid => exact ⟨_, by rw [rangeResponse]; dsimp only; rw [parsed]⟩
    | valid start last => exact ⟨_, rangeResponse_of_valid parsed body⟩

theorem handlerOf_ok (route : Route) (now : Nat) (req : Request) (caches : Caches) :
    ∃ handled, handlerOf route now req caches = .ok handled := by
  cases route with
  | text => exact ⟨_, rfl⟩
  | image => exact ⟨_, rfl⟩
  | file =>
    have lookup : ∃ handled, fileCacheLookupRoute now req caches.file = .ok handled := by
      rw [fileCacheLookupRoute]
      cases req.path.toList.dropPrefix? "/clipboard/file/".toList with
      | none => exact ⟨_, rfl⟩
      | some suffix =>
        dsimp only
        cases shaOfSuffix (splitQuery suffix).1 with
        | none => exact ⟨_, rfl⟩
        | some sha =>
          dsimp only
          rcases caches.file.lookup now sha with ⟨_ | body, cache⟩
          · exact ⟨_, rfl⟩
          · obtain ⟨response, ok⟩ := rangeResponse_ok (splitQuery suffix).2 body
            exact ⟨(response, cache), by dsimp only; rw [ok]; rfl⟩
    obtain ⟨handled, ok⟩ := lookup
    exact ⟨(handled.1, { caches with file := handled.2 }), by rw [handlerOf, fileHandler, ok]; rfl⟩

theorem Router.IsDefault.handle_ok {router : Router} (default : router.IsDefault) (now : Nat)
    (req : Request) (caches : Caches) : ∃ handled, router.handle now req caches = .ok handled := by
  unfold Router.handle
  split
  · exact ⟨_, rfl⟩
  split
  · next _ start handler found =>
    rw [default.routes] at found
    have mem := List.mem_of_find?_eq_some found
    have only : defaultRouterWithCaches.routes =
      [("/healthz", fun _ _ caches => .ok (.ok (asBytes "ok"), caches))] := rfl
    rw [only, List.mem_singleton] at mem
    cases mem
    exact ⟨_, rfl⟩
  split
  · next _ start handler found =>
    obtain ⟨route, rfl, rfl⟩ := default.mem_iff.mp (List.mem_of_find?_eq_some found)
    exact handlerOf_ok route now req caches
  · exact ⟨_, rfl⟩

theorem getFile_toList (hex range : String) :
    (getFile hex (some range)).toList =
      (routeStart .file).toList ++ (hex.toList ++ '?' :: ("range=".toList ++ range.toList)) := by
  have query : "?range=".toList ++ range.toList = '?' :: ("range=".toList ++ range.toList) := rfl
  rw [← query, ← List.append_assoc, ← List.append_assoc, ← String.toList_append,
    ← String.toList_append, ← String.toList_append]
  rfl

/-- A range of the file under `sha` is cut out of the file. -/
theorem Router.IsDefault.respond_range {router : Router} (default : router.IsDefault) {now : Nat}
    {caches : Caches} {sha : Hash} {body : List UInt8} (held : caches.Holds now .file sha body)
    {range : String} {start last : Nat} (isRange : IsRange range.toList start last) :
    router.respond now (getFile (Sync.fullHex sha) (some range)) caches =
      .ok (if body.length ≤ start then .rangeNotSatisfiable
        else .ok (slice body start (min last (body.length - 1) + 1))) := by
  have under := getFile_toList (Sync.fullHex sha) range
  have split := splitQuery_of_query (toLower_fullHex sha) ("range=".toList ++ range.toList)
  have spelled : Spells ((Sync.fullHex sha).toList ++ '?' :: ("range=".toList ++ range.toList)) sha
      .file := ⟨_, toLower_fullHex sha, .inr ⟨_, rfl⟩⟩
  rw [default.respond_route now .file _ caches under, shaOfSuffix_hashPart_iff.mpr spelled]
  dsimp only
  rw [lookup_eq_some_iff.mpr held]
  dsimp only
  rw [answer, split, rangeResponse_of_valid isRange.parseRangeQuery]

/-- One request for a part of a file. In between, time passes and the caches change. -/
structure Fetch where
  now : Nat
  caches : Caches
  first : Nat
  last : Option Nat

def Fetch.range (f : Fetch) : String :=
  match f.last with
  | some last => toString f.first ++ "-" ++ toString last
  | none => toString f.first ++ "-"

/-- The bytes of the file in an answer: those of a 200. -/
def fileBytes : IoResult Response → List UInt8
  | .ok response => if response.status = 200 then response.body else []
  | .error _ => []

/-- Each request starts where the one before it ended, and together they reach from `start` to the
end of a file of `len` bytes. -/
def Covers (len : Nat) : Nat → List Fetch → Prop
  | start, [] => len ≤ start
  | start, f :: fetches =>
    f.first = start ∧ match f.last with
      | some last => start ≤ last ∧ last ≤ usizeMax ∧ Covers len (last + 1) fetches
      | none => start ≤ usizeMax ∧ fetches = []

theorem isRange_closed {a b : String} {n m : Nat} (first : Denotes a.toList n)
    (last : Denotes b.toList m) (le : n ≤ m) (fits : m ≤ usizeMax) :
    IsRange (a ++ "-" ++ b).toList n m := by
  rw [String.toList_append, String.toList_append, List.append_assoc]
  exact .closed first last le fits

theorem isRange_opened {a : String} {n : Nat} (first : Denotes a.toList n) (fits : n ≤ usizeMax) :
    IsRange (a ++ "-").toList n usizeMax := by
  rw [String.toList_append]
  exact .opened first fits

theorem denotes_toString (n : Nat) : Denotes (toString n).toList n := by
  rw [Nat.toString_eq_ofList_toDigits, String.toList_ofList]
  exact denotes_toDigits n

theorem fileBytes_range (body : List UInt8) (start last : Nat) :
    fileBytes (.ok (if body.length ≤ start then .rangeNotSatisfiable
      else .ok (slice body start (min last (body.length - 1) + 1)))) =
        (body.drop start).take (last + 1 - start) := by
  by_cases past : body.length ≤ start
  · rw [if_pos past, List.drop_eq_nil_of_le past, List.take_nil]
    rfl
  · rw [if_neg past]
    change slice body start (min last (body.length - 1) + 1) = _
    rw [slice, List.take_eq_take_iff, List.length_drop]
    omega

/-- One request after another: what is fetched is what is left of the file. -/
theorem Router.IsDefault.fetched {router : Router} (default : router.IsDefault) {sha : Hash}
    {body : List UInt8} (fits : body.length ≤ usizeMax) {fetches : List Fetch} :
    ∀ {start : Nat}, (∀ f ∈ fetches, f.caches.Holds f.now .file sha body) →
      Covers body.length start fetches →
      fetches.flatMap (fun f => fileBytes
        (router.respond f.now (getFile (Sync.fullHex sha) (some f.range)) f.caches)) =
          body.drop start := by
  induction fetches with
  | nil =>
    intro start _ covers
    exact (List.drop_eq_nil_of_le covers).symm
  | cons f fetches ih =>
    intro start held covers
    obtain ⟨heldFirst, heldRest⟩ := List.forall_mem_cons.mp held
    obtain ⟨rfl, covers⟩ := covers
    rw [List.flatMap_cons]
    cases last : f.last with
    | some m =>
      rw [last] at covers
      obtain ⟨le, small, covers⟩ := covers
      have range : f.range = toString f.first ++ "-" ++ toString m := by rw [Fetch.range, last]
      rw [range, default.respond_range heldFirst
        (isRange_closed (denotes_toString _) (denotes_toString _) le small), fileBytes_range,
        ih heldRest covers]
      have next : body.drop (m + 1) = (body.drop f.first).drop (m + 1 - f.first) := by
        rw [List.drop_drop]
        congr 1
        omega
      rw [next, List.take_append_drop]
    | none =>
      rw [last] at covers
      obtain ⟨small, rfl⟩ := covers
      have range : f.range = toString f.first ++ "-" := by rw [Fetch.range, last]
      rw [range, default.respond_range heldFirst (isRange_opened (denotes_toString _) small),
        fileBytes_range, List.flatMap_nil, List.append_nil, List.take_of_length_le]
      rw [List.length_drop]
      omega

/-- A range of a cached file is answered with its bytes, or with 416 when it starts behind the
file; no request makes the server panic; and what consecutive ranges bring, put together, is the
file. A body is a `Vec`, so its length is a `usize`. -/
theorem file_ranges_served {router : Router} (default : router.IsDefault) (sha : Hash)
    {body : List UInt8} (fits : body.length ≤ usizeMax) :
    (∀ caches now, caches.Holds now .file sha body → ∀ a b n m, Denotes a.toList n →
      Denotes b.toList m → n ≤ m → m ≤ usizeMax →
        router.respond now (getFile (Sync.fullHex sha) (some (a ++ "-" ++ b))) caches =
          .ok (if body.length ≤ n then .rangeNotSatisfiable
            else .ok (slice body n (min m (body.length - 1) + 1)))) ∧
    (∀ caches now, caches.Holds now .file sha body → ∀ a n, Denotes a.toList n → n ≤ usizeMax →
      router.respond now (getFile (Sync.fullHex sha) (some (a ++ "-"))) caches =
        .ok (if body.length ≤ n then .rangeNotSatisfiable else .ok (body.drop n))) ∧
    (∀ caches now req, ∃ handled, router.handle now req caches = .ok handled) ∧
    ∀ fetches : List Fetch, (∀ f ∈ fetches, f.caches.Holds f.now .file sha body) →
      Covers body.length 0 fetches →
      fetches.flatMap (fun f => fileBytes
        (router.respond f.now (getFile (Sync.fullHex sha) (some f.range)) f.caches)) = body := by
  refine ⟨fun caches now held a b n m first last le small => ?_,
    fun caches now held a n first small => ?_,
    fun caches now req => default.handle_ok now req caches,
    fun fetches held covers => default.fetched fits held covers⟩
  · exact default.respond_range held (isRange_closed first last le small)
  · rw [default.respond_range held (isRange_opened first small)]
    have whole : slice body n (min usizeMax (body.length - 1) + 1) = body.drop n := by
      rw [slice, List.take_of_length_le]
      rw [List.length_drop]
      omega
    rw [whole]

theorem file_ranges_served_small :
    let sha : Hash := Vector.replicate 32 7
    let caches : Caches := ⟨.new, FileCache.insertOwned .new 0 sha [1, 2, 3]⟩
    caches.Holds 5 .file sha [1, 2, 3] ∧
      defaultRouterWithCaches.respond 5 (getFile (Sync.fullHex sha) (some ("1" ++ "-" ++ "9")))
        caches = .ok (.ok [2, 3]) := by
  intro sha caches
  have held : caches.Holds 5 .file sha [1, 2, 3] := ⟨⟨[1, 2, 3], 0⟩, by decide, rfl, by decide⟩
  exact ⟨held, (file_ranges_served ⟨rfl, .refl _⟩ sha (by decide)).1 caches 5 held "1" "9" 1 9
    ⟨by decide, List.all_eq_true.mp (by decide), by decide⟩
    ⟨by decide, List.all_eq_true.mp (by decide), by decide⟩ (by decide) (by decide)⟩

end LanMouse.Transport.Http3
