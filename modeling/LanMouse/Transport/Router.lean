import LanMouse.Clipboard.Serving
import LanMouse.Transport.Hex
import LanMouse.Transport.Range

/-!
# Routes

What the server answers to a request. The payload routes take the rest of the path for the hash of
a payload; behind the hash of a file there may be a query with a range.

`Spells suffix sha route` says which suffixes stand for a hash. A request reaches a cache with a
suffix that spells one hash, and with no other.
-/
namespace LanMouse.Transport.Http3

open Bytes Proto Text Clipboard BudgetCache

def Response.ok (body : List UInt8) : Response := ⟨200, body⟩

def Response.notFound : Response := ⟨404, asBytes "not found"⟩

def Response.methodNotAllowed : Response := ⟨405, asBytes "method not allowed"⟩

def Response.rangeNotSatisfiable : Response := ⟨416, asBytes "range not satisfiable"⟩

/-! ### Lookups -/

def cacheLookupRoute (now : Nat) (req : Request) (cache : ClipboardCache) (start : String) :
    Response × ClipboardCache :=
  match req.path.toList.dropPrefix? start.toList with
  | none => (.notFound, cache)
  | some suffix =>
    match shaOfSuffix suffix with
    | none => (.notFound, cache)
    | some sha =>
      match cache.lookup now sha with
      | (some content, cache) => (.ok content, cache)
      | (none, cache) => (.notFound, cache)

/-- `suffix.find('?')` and the two slices around it. -/
def splitQuery (suffix : List Char) : List Char × Option (List Char) :=
  match splitOnce '?' suffix with
  | some (shaHex, query) => (shaHex, some query)
  | none => (suffix, none)

/-- The part of a file that a query asks for. -/
def rangeResponse (query : Option (List Char)) (fullBody : List UInt8) : IoResult Response :=
  match query with
  | none => .ok (.ok fullBody)
  | some q =>
    match parseRangeQuery q with
    | .none => .ok (.ok fullBody)
    | .invalid => .ok .rangeNotSatisfiable
    | .valid start last =>
      if start ≥ fullBody.length then .ok .rangeNotSatisfiable
      else
        let last := min last (fullBody.length - 1)
        if start > last then .ok .rangeNotSatisfiable
        else Response.ok <$> index fullBody start (last + 1)

def fileCacheLookupRoute (now : Nat) (req : Request) (cache : FileCache) :
    IoResult (Response × FileCache) :=
  match req.path.toList.dropPrefix? "/clipboard/file/".toList with
  | none => .ok (.notFound, cache)
  | some suffix =>
    let (shaHex, query) := splitQuery suffix
    match shaOfSuffix shaHex with
    | none => .ok (.notFound, cache)
    | some sha =>
      match cache.lookup now sha with
      | (none, cache) => .ok (.notFound, cache)
      | (some fullBody, cache) => (·, cache) <$> rangeResponse query fullBody

/-! ### The router -/

structure Caches where
  clipboard : ClipboardCache
  file : FileCache

abbrev Handler := Nat → Request → Caches → IoResult (Response × Caches)

/-- The prefix routes are in the order in which the hash map goes through them. -/
structure Router where
  routes : List (String × Handler) := []
  prefixRoutes : List (String × Handler) := []

def Router.get (r : Router) (path : String) (handler : Handler) : Router :=
  { r with routes := (path, handler) :: r.routes.filter (·.1 ≠ path) }

def Router.getPrefix (r : Router) (start : String) (handler : Handler) : Router :=
  { r with prefixRoutes := (start, handler) :: r.prefixRoutes.filter (·.1 ≠ start) }

def Router.handle (r : Router) (now : Nat) (req : Request) (caches : Caches) :
    IoResult (Response × Caches) :=
  if req.method ≠ "GET" then .ok (.methodNotAllowed, caches)
  else match r.routes.find? (·.1 = req.path) with
    | some (_, handler) => handler now req caches
    | none =>
      match r.prefixRoutes.find? (·.1.toList.isPrefixOf req.path.toList) with
      | some (_, handler) => handler now req caches
      | none => .ok (.notFound, caches)

def clipboardHandler (start : String) : Handler := fun now req caches =>
  let (response, clipboard) := cacheLookupRoute now req caches.clipboard start
  .ok (response, { caches with clipboard })

def fileHandler : Handler := fun now req caches => do
  let (response, file) ← fileCacheLookupRoute now req caches.file
  return (response, { caches with file })

def defaultRouterWithCaches : Router :=
  Router.get {} "/healthz" (fun _ _ caches => .ok (.ok (asBytes "ok"), caches))
    |>.getPrefix "/clipboard/text/" (clipboardHandler "/clipboard/text/")
    |>.getPrefix "/clipboard/image/" (clipboardHandler "/clipboard/image/")
    |>.getPrefix "/clipboard/file/" fileHandler

/-! ### Answers -/

def routeStart : Route → String
  | .text => "/clipboard/text/"
  | .image => "/clipboard/image/"
  | .file => "/clipboard/file/"

def Caches.cache (caches : Caches) : Route → Cache Hash UInt8
  | .text | .image => caches.clipboard
  | .file => caches.file

/-- The cache behind a route holds `body` under `sha`, and the time to live has not run out. -/
def Caches.Holds (caches : Caches) (now : Nat) (route : Route) (sha : Hash) (body : List UInt8) :
    Prop :=
  ∃ entry, (caches.cache route).entries.lookup sha = some entry ∧ entry.bytes = body ∧
    now - entry.insertedAt < (caches.cache route).ttl

def handlerOf : Route → Handler
  | .text => clipboardHandler "/clipboard/text/"
  | .image => clipboardHandler "/clipboard/image/"
  | .file => fileHandler

/-- The default router, whatever the order of its hash map of prefixes. -/
structure Router.IsDefault (r : Router) : Prop where
  routes : r.routes = defaultRouterWithCaches.routes
  prefixRoutes : r.prefixRoutes.Perm defaultRouterWithCaches.prefixRoutes

theorem prefixRoutes_eq : defaultRouterWithCaches.prefixRoutes =
    [Route.file, .image, .text].map fun route => (routeStart route, handlerOf route) := rfl

theorem routeStart_unique {r r' : Route} {suffix : List Char}
    (start : (routeStart r').toList.isPrefixOf ((routeStart r).toList ++ suffix)) : r' = r := by
  cases r <;> cases r' <;> first | rfl | cases start

theorem find?_routes_eq_none {path : String} (other : path ≠ "/healthz") :
    defaultRouterWithCaches.routes.find? (·.1 = path) = none := by
  have only : (defaultRouterWithCaches.routes.map (·.1)) = ["/healthz"] := rfl
  refine List.find?_eq_none.mpr fun entry mem => ?_
  have health : entry.1 ∈ ["/healthz"] := only ▸ List.mem_map_of_mem mem
  rw [List.mem_singleton.mp health, decide_eq_true_eq]
  exact fun same => other same.symm

section Default

variable {router : Router} (default : router.IsDefault)
include default

theorem Router.IsDefault.mem_iff {start : String} {handler : Handler} :
    (start, handler) ∈ router.prefixRoutes ↔
      ∃ route, routeStart route = start ∧ handlerOf route = handler := by
  rw [default.prefixRoutes.mem_iff, prefixRoutes_eq, List.mem_map]
  constructor
  · rintro ⟨route, -, eq⟩
    exact ⟨route, congrArg Prod.fst eq, congrArg Prod.snd eq⟩
  · rintro ⟨route, rfl, rfl⟩
    exact ⟨route, by cases route <;> simp, rfl⟩

/-- A path under one of the three prefixes goes to the handler of that prefix. -/
theorem Router.IsDefault.handle_route (now : Nat) (route : Route) (suffix : List Char)
    (caches : Caches) {req : Request} (method : req.method = "GET")
    (path : req.path.toList = (routeStart route).toList ++ suffix) :
    router.handle now req caches = handlerOf route now req caches := by
  have notHealth : router.routes.find? (·.1 = req.path) = none := by
    rw [default.routes]
    refine find?_routes_eq_none fun health => ?_
    rw [health] at path
    cases route <;> cases path
  rw [Router.handle, if_neg (by simpa using method), notHealth]
  dsimp only
  cases found : router.prefixRoutes.find? (·.1.toList.isPrefixOf req.path.toList) with
  | none =>
    have none := List.find?_eq_none.mp found (routeStart route, handlerOf route)
      (default.mem_iff.mpr ⟨route, rfl, rfl⟩)
    simp [path] at none
  | some entry =>
    obtain ⟨start, handler⟩ := entry
    obtain ⟨route', rfl, rfl⟩ := default.mem_iff.mp (List.mem_of_find?_eq_some found)
    have isStart := List.find?_some found
    rw [path] at isStart
    rw [routeStart_unique isStart]

/-- Any other path is the health check or is not found. -/
theorem Router.IsDefault.handle_other (now : Nat) (caches : Caches) (req : Request)
    (method : req.method = "GET") (other : req.path ≠ "/healthz")
    (noRoute : ∀ route suffix, req.path.toList ≠ (routeStart route).toList ++ suffix) :
    router.handle now req caches = .ok (.notFound, caches) := by
  have notHealth : router.routes.find? (·.1 = req.path) = none := by
    rw [default.routes]
    exact find?_routes_eq_none other
  have noPrefix : router.prefixRoutes.find? (·.1.toList.isPrefixOf req.path.toList) = none := by
    refine List.find?_eq_none.mpr fun (start, handler) mem isStart => ?_
    obtain ⟨route, rfl, rfl⟩ := default.mem_iff.mp mem
    obtain ⟨suffix, eq⟩ := List.isPrefixOf_iff_prefix.mp isStart
    exact noRoute route suffix eq.symm
  rw [Router.handle, if_neg (by simpa using method), notHealth]
  dsimp only
  rw [noPrefix]

end Default

def Router.respond (r : Router) (now : Nat) (path : String) (caches : Caches) :
    IoResult Response := Prod.fst <$> r.handle now ⟨"GET", path, []⟩ caches

/-- What a suffix has in the place of the hash. -/
def hashPart : Route → List Char → List Char
  | .text, suffix | .image, suffix => suffix
  | .file, suffix => (splitQuery suffix).1

/-- The answer when the hash is found with `body`. -/
def answer (suffix : List Char) (body : List UInt8) : Route → IoResult Response
  | .text | .image => .ok (.ok body)
  | .file => rangeResponse (splitQuery suffix).2 body

theorem fst_clipboardHandler {now : Nat} {req : Request} {caches : Caches} {start : String}
    {suffix : List Char} (stripped : req.path.toList.dropPrefix? start.toList = some suffix) :
    Prod.fst <$> clipboardHandler start now req caches =
      match shaOfSuffix suffix with
      | none => .ok .notFound
      | some sha =>
        match (caches.clipboard.lookup now sha).1 with
        | none => .ok .notFound
        | some body => .ok (.ok body) := by
  have fst : Prod.fst <$> clipboardHandler start now req caches =
    .ok (cacheLookupRoute now req caches.clipboard start).1 := rfl
  rw [fst, cacheLookupRoute, stripped]
  dsimp only
  cases shaOfSuffix suffix with
  | none => rfl
  | some sha =>
    dsimp only
    rcases caches.clipboard.lookup now sha with ⟨_ | body, rest⟩ <;> rfl

theorem fst_fileCacheLookupRoute {now : Nat} {req : Request} {cache : FileCache}
    {suffix : List Char}
    (stripped : req.path.toList.dropPrefix? "/clipboard/file/".toList = some suffix) :
    Prod.fst <$> fileCacheLookupRoute now req cache =
      match shaOfSuffix (splitQuery suffix).1 with
      | none => .ok .notFound
      | some sha =>
        match (cache.lookup now sha).1 with
        | none => .ok .notFound
        | some body => rangeResponse (splitQuery suffix).2 body := by
  rw [fileCacheLookupRoute, stripped]
  dsimp only
  cases shaOfSuffix (splitQuery suffix).1 with
  | none => rfl
  | some sha =>
    dsimp only
    rcases cache.lookup now sha with ⟨_ | body, rest⟩
    · rfl
    · dsimp only
      cases rangeResponse (splitQuery suffix).2 body <;> rfl

theorem fst_fileHandler (now : Nat) (req : Request) (caches : Caches) :
    Prod.fst <$> fileHandler now req caches =
      Prod.fst <$> fileCacheLookupRoute now req caches.file := by
  rw [fileHandler]
  cases fileCacheLookupRoute now req caches.file <;> rfl

theorem Router.IsDefault.respond_route {router : Router} (default : router.IsDefault) (now : Nat)
    (route : Route) (suffix : List Char) (caches : Caches) {path : String}
    (under : path.toList = (routeStart route).toList ++ suffix) :
    router.respond now path caches =
      match shaOfSuffix (hashPart route suffix) with
      | none => .ok .notFound
      | some sha =>
        match ((caches.cache route).lookup now sha).1 with
        | none => .ok .notFound
        | some body => answer suffix body route := by
  have stripped : path.toList.dropPrefix? (routeStart route).toList = some suffix :=
    List.dropPrefix?_eq_some_iff.mpr ⟨_, under, beq_self_eq_true _⟩
  rw [Router.respond, default.handle_route now route suffix caches rfl under]
  cases route with
  | text => exact fst_clipboardHandler stripped
  | image => exact fst_clipboardHandler stripped
  | file => exact (fst_fileHandler ..).trans (fst_fileCacheLookupRoute stripped)

/-! ### Hashes and paths -/

def getText (sha256 : String) : String := "/clipboard/text/" ++ sha256

def getImage (sha256 : String) : String := "/clipboard/image/" ++ sha256

def getFile (sha256 : String) (range : Option String) : String :=
  match range with
  | some r => "/clipboard/file/" ++ sha256 ++ "?range=" ++ r
  | none => "/clipboard/file/" ++ sha256

/-- The path a receiver asks for a payload it was told of. -/
def receiverPath (sha : Hash) : Route → String
  | .text => getText (Sync.fullHex sha)
  | .image => getImage (Sync.fullHex sha)
  | .file => getFile (Sync.fullHex sha) none

/-- Behind the start of a route, `suffix` stands for `sha`: it is the hexadecimal form of `sha` but
for the case of its letters, on the file route with any query behind it. -/
def Spells (suffix : List Char) (sha : Hash) : Route → Prop
  | .text | .image => suffix.map Char.toLower = (Sync.fullHex sha).toList
  | .file => ∃ hex, hex.map Char.toLower = (Sync.fullHex sha).toList ∧
      (suffix = hex ∨ ∃ query, suffix = hex ++ '?' :: query)

variable {router : Router} {route : Route} {suffix hex : List Char} {sha : Hash}

theorem question_not_mem (lower : hex.map Char.toLower = (Sync.fullHex sha).toList) :
    '?' ∉ hex := fun mem => by
  rw [fullHex_toList] at lower
  exact absurd (hexdigits_of_toLower lower mem).2 (by decide)

theorem splitQuery_of_query (lower : hex.map Char.toLower = (Sync.fullHex sha).toList)
    (query : List Char) : splitQuery (hex ++ '?' :: query) = (hex, some query) := by
  rw [splitQuery, splitOnce_eq_some_iff.mpr ⟨rfl, question_not_mem lower⟩]

theorem splitQuery_of_hex (lower : hex.map Char.toLower = (Sync.fullHex sha).toList) :
    splitQuery hex = (hex, none) := by
  rw [splitQuery, splitOnce_eq_none_iff.mpr (question_not_mem lower)]

theorem shaOfSuffix_hashPart_iff :
    shaOfSuffix (hashPart route suffix) = some sha ↔ Spells suffix sha route := by
  rw [shaOfSuffix_eq_some_iff]
  cases route with
  | text => rfl
  | image => rfl
  | file =>
    constructor
    · intro lower
      refine ⟨_, lower, ?_⟩
      rw [hashPart, splitQuery]
      split
      · next hex query cut => exact .inr ⟨query, (splitOnce_eq_some_iff.mp cut).1⟩
      · exact .inl rfl
    · rintro ⟨hex, lower, rfl | ⟨query, rfl⟩⟩
      · rwa [hashPart, splitQuery_of_hex lower]
      · rwa [hashPart, splitQuery_of_query lower]

theorem receiverPath_toList (sha : Hash) (route : Route) :
    (receiverPath sha route).toList = (routeStart route).toList ++ (Sync.fullHex sha).toList := by
  cases route <;> exact String.toList_append

theorem toLower_fullHex (sha : Hash) :
    (Sync.fullHex sha).toList.map Char.toLower = (Sync.fullHex sha).toList := by
  have digits : ∀ k < 16, (Nat.digitChar k).toLower = Nat.digitChar k := by decide
  have same : ∀ c ∈ (Sync.fullHex sha).toList, c.toLower = id c := by
    intro c mem
    rw [fullHex_toList] at mem
    obtain ⟨b, -, inByte⟩ := List.mem_flatMap.mp mem
    obtain ⟨k, small, rfl⟩ := digit_of_mem_hexByte inByte
    exact digits k small
  rw [List.map_congr_left same, List.map_id]

/-- A hexadecimal form without a query is answered with the whole payload. -/
theorem Router.IsDefault.respond_hex (default : router.IsDefault) (now : Nat) (route : Route)
    (caches : Caches) {path : String} (under : path.toList = (routeStart route).toList ++ hex)
    (lower : hex.map Char.toLower = (Sync.fullHex sha).toList) :
    router.respond now path caches =
      match ((caches.cache route).lookup now sha).1 with
      | none => .ok .notFound
      | some body => .ok (.ok body) := by
  have whole : ∀ body, answer hex body route = .ok (.ok body) := by
    intro body
    cases route with
    | text => rfl
    | image => rfl
    | file => rw [answer, splitQuery_of_hex lower, rangeResponse]
  have spelled : Spells hex sha route := by
    cases route with
    | text => exact lower
    | image => exact lower
    | file => exact ⟨hex, lower, .inl rfl⟩
  rw [default.respond_route now route hex caches under, shaOfSuffix_hashPart_iff.mpr spelled]
  simp only [whole]

theorem lookup_eq_some_iff {caches : Caches} {now : Nat} {body : List UInt8} :
    ((caches.cache route).lookup now sha).1 = some body ↔ caches.Holds now route sha body := by
  have fst : ((caches.cache route).lookup now sha).1 =
    ((caches.cache route).toStore.lookup now sha).1 := rfl
  rw [fst, Store.lookup, Caches.Holds]
  cases stored : (caches.cache route).entries.lookup sha with
  | none => simp
  | some entry =>
    by_cases fresh : now - entry.insertedAt < (caches.cache route).ttl
    · simp [fresh]
    · simp [fresh]

theorem spells_unique {sha sha' : Hash} (spelled : Spells suffix sha route)
    (spelled' : Spells suffix sha' route) : sha = sha' := by
  have first := shaOfSuffix_hashPart_iff.mpr spelled
  exact Option.some.inj (first.symm.trans (shaOfSuffix_hashPart_iff.mpr spelled'))

/-- A path under one of the prefixes that is not answered with 404 stands for a hash with a
payload. -/
theorem Router.IsDefault.found_under (default : router.IsDefault) {now : Nat} {caches : Caches}
    {path : String} {response : Response}
    (under : path.toList = (routeStart route).toList ++ suffix)
    (answered : router.respond now path caches = .ok response) (found : response ≠ .notFound) :
    ∃ sha body, Spells suffix sha route ∧ caches.Holds now route sha body ∧
      answer suffix body route = .ok response := by
  rw [default.respond_route now route suffix caches under] at answered
  cases hash : shaOfSuffix (hashPart route suffix) with
  | none =>
    rw [hash] at answered
    cases answered
    exact absurd rfl found
  | some sha =>
    rw [hash] at answered
    dsimp only at answered
    cases stored : ((caches.cache route).lookup now sha).1 with
    | none =>
      rw [stored] at answered
      cases answered
      exact absurd rfl found
    | some body =>
      rw [stored] at answered
      exact ⟨sha, body, shaOfSuffix_hashPart_iff.mp hash, lookup_eq_some_iff.mp stored, answered⟩

/-- Whatever the order of the prefixes: the path of a receiver is answered with the payload under
its hash, or with 404 when there is none; one suffix stands for one hash; and whatever is not
answered with 404 is the health check or stands for a hash with a payload, the one the answer is
made from. -/
theorem payload_paths_answered {router : Router} (default : router.IsDefault) (caches : Caches)
    (now : Nat) :
    (∀ route sha body, router.respond now (receiverPath sha route) caches = .ok (.ok body) ↔
      caches.Holds now route sha body) ∧
    (∀ route sha, (∀ body, ¬ caches.Holds now route sha body) →
      router.respond now (receiverPath sha route) caches = .ok .notFound) ∧
    (∀ route suffix sha sha', Spells suffix sha route → Spells suffix sha' route → sha = sha') ∧
    (∀ path response, router.respond now path caches = .ok response → response ≠ .notFound →
      path = "/healthz" ∨ ∃ route suffix sha body,
        path.toList = (routeStart route).toList ++ suffix ∧ Spells suffix sha route ∧
          caches.Holds now route sha body ∧ answer suffix body route = .ok response) ∧
    ∀ route path hex sha, path.toList = (routeStart route).toList ++ hex →
      hex.map Char.toLower = (Sync.fullHex sha).toList →
        router.respond now path caches = router.respond now (receiverPath sha route) caches := by
  have receiver := fun route sha => default.respond_hex now route caches
    (receiverPath_toList sha route) (toLower_fullHex sha)
  refine ⟨fun route sha body => ?_, fun route sha nothing => ?_, fun _ _ _ _ => spells_unique,
    fun path response answered found => ?_, fun route path hex sha under lower => ?_⟩
  · rw [receiver, ← lookup_eq_some_iff]
    cases ((caches.cache route).lookup now sha).1 with
    | none => simp [Response.notFound, Response.ok]
    | some b => simp [Response.ok]
  · rw [receiver]
    cases stored : ((caches.cache route).lookup now sha).1 with
    | none => rfl
    | some body => exact absurd (lookup_eq_some_iff.mp stored) (nothing body)
  · by_cases health : path = "/healthz"
    · exact .inl health
    by_cases under : ∃ route suffix, path.toList = (routeStart route).toList ++ suffix
    · obtain ⟨route, suffix, under⟩ := under
      obtain ⟨sha, body, spelled, held, same⟩ := default.found_under under answered found
      exact .inr ⟨route, suffix, sha, body, under, spelled, held, same⟩
    · have other := default.handle_other now caches ⟨"GET", path, []⟩ rfl health
        fun route suffix eq => under ⟨route, suffix, eq⟩
      rw [Router.respond, other] at answered
      cases answered
      exact absurd rfl found
  · rw [receiver, default.respond_hex now route caches under lower]

theorem payload_paths_answered_text :
    let sha : Hash := Vector.replicate 32 7
    let caches : Caches := ⟨(ClipboardCache.insert .new 0 sha [1, 2]).2, .new⟩
    caches.Holds 5 .text sha [1, 2] ∧
      defaultRouterWithCaches.respond 5 (receiverPath sha .text) caches = .ok (.ok [1, 2]) := by
  intro sha caches
  have held : caches.Holds 5 .text sha [1, 2] := ⟨⟨[1, 2], 0⟩, by decide, rfl, by decide⟩
  exact ⟨held, ((payload_paths_answered ⟨rfl, .refl _⟩ caches 5).1 .text sha [1, 2]).mpr held⟩

end LanMouse.Transport.Http3
