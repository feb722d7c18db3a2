import SlugBase.Lib.JsUri
import SlugBase.Lib.JsMap
import SlugBase.Lib.Ties
import Mathlib.Data.Prod.Lex
import Mathlib.Data.List.Lex
import Mathlib.Data.Finset.Max
import Mathlib.Order.OrderDual

/-!
# The route table

The routes of the composition, matched by the path template of their operation, and the files behind them.

* `matchSegments`, `RouteTable.match`: a template against a path, and the first fit of the sorted routes;
* `specificity`: how much a template says of a path, the less the more specific;
* **`eq_of_specificity`**: two templates of one request that say as much are one up to parameter names;
* **`resolves_iff`**: the most specific fit wins, in every order of registration, exactly when it always sorts first;
* `targetOf`, `readInside`, `serveWebRoot`: the file of the web root that a path names;
* **`serveWebRoot_inside`**: a file that is answered lies below the web root, under the names of the decoded path.
-/

namespace SlugBase.Http

open JavaScript OrderDual

/-! ## Templates -/

/-- A binding of a template to an operation. -/
structure RouteBinding (Operation : Type) where
  method : JsString
  path : JsString
  operation : Operation

/-- `path.split("/").slice(1)`. -/
def segmentsOf (path : JsString) : List JsString := (path.splitOn 0x2F).drop 1

/-- `[A-Za-z_]`. -/
def isNameStart (u : UInt16) : Bool := (0x41 ≤ u && u ≤ 0x5A) || (0x61 ≤ u && u ≤ 0x7A) || u == 0x5F

/-- `[A-Za-z0-9_]`. -/
def isNamePart (u : UInt16) : Bool := isNameStart u || (0x30 ≤ u && u ≤ 0x39)

/-- `PARAMETER`: the name of `{name}`. -/
def parameterName (segment : JsString) : Option JsString :=
  match segment with
  | u :: rest =>
    match rest.getLast?, rest.dropLast with
    | some v, start :: name =>
      if u = 0x7B ∧ v = 0x7D ∧ isNameStart start ∧ name.all isNamePart then some (start :: name) else none
    | _, _ => none
  | [] => none

/-- A compiled route. -/
structure CompiledRoute (Operation : Type) where
  method : JsString
  segments : List JsString
  parameters : ℕ
  rest : Bool
  binding : RouteBinding Operation

variable {Operation : Type} (toUpperCase : JsString → JsString)

/-- A binding as it is compiled. -/
def compile (binding : RouteBinding Operation) : CompiledRoute Operation :=
  let template := segmentsOf binding.path
  let rest := template.getLast? == some (js "*")
  let segments := if rest then template.dropLast else template
  { method := toUpperCase binding.method
    segments
    parameters := (segments.filter fun segment => (parameterName segment).isSome).length
    rest
    binding }

/-- What the routes are sorted by. -/
def CompiledRoute.key (route : CompiledRoute Operation) : ℕ ×ₗ ℕ := toLex (route.rest.toNat, route.parameters)

/-- `RouteTable`: the compiled routes, sorted. -/
def routeTable (bindings : List (RouteBinding Operation)) : List (CompiledRoute Operation) :=
  (bindings.map (compile toUpperCase)).insertionSort fun a b => a.key ≤ b.key

/-- The parameters of a path. -/
abbrev Params := JsMap JsString JsString

/-- The loop of `matchSegments`. -/
def matchFrom : List JsString → List JsString → Params → Option Params
  | [], _, params => some params
  | _ :: _, [], _ => none
  | expected :: template, raw :: requested, params =>
    if raw = [] then none
    else match decodeURIComponent raw with
      | none => none
      | some value =>
        match parameterName expected with
        | none => if value ≠ expected then none else matchFrom template requested params
        | some name => matchFrom template requested (params.set name value)

/-- `matchSegments`. -/
def matchSegments (template requested : List JsString) : Option Params := matchFrom template requested ∅

/-- What a route makes of a request. -/
def CompiledRoute.fit (route : CompiledRoute Operation) (method : JsString) (requested : List JsString) : Option Params :=
  if route.method ≠ method then none
  else if (if route.rest then requested.length ≤ route.segments.length else requested.length ≠ route.segments.length) then none
  else matchSegments route.segments requested

/-- `RouteTable.match`: the first route that fits. -/
def matchRoute (table : List (CompiledRoute Operation)) (method path : JsString) : Option (CompiledRoute Operation × Params) :=
  table.findSome? fun route =>
    (route.fit (toUpperCase method) (segmentsOf path)).map fun params => (route, params)

/-! ## Specificity -/

/-- A segment of a template up to the name of its parameter. -/
def shapeOf (segment : JsString) : Option JsString := if (parameterName segment).isSome then none else some segment

/-- A template up to parameter names. -/
def CompiledRoute.shape (route : CompiledRoute Operation) : JsString × Bool × List (Option JsString) :=
  (route.method, route.rest, route.segments.map shapeOf)

/-- **How much a template says of a path**, the less the more specific: a template that names every segment before one
that ends in `*`, of these the one of the longer fixed part, and a literal before a parameter at the first position where
two templates differ. -/
def CompiledRoute.specificity (route : CompiledRoute Operation) : Bool ×ₗ (ℕᵒᵈ ×ₗ List Bool) :=
  toLex (route.rest, toLex (toDual route.segments.length, route.segments.map fun segment => (parameterName segment).isSome))

/-- The literals of a template are the decoded segments of a path that it fits. -/
theorem literal_of_matchFrom {template requested : List JsString} {params params' : Params}
    (h : matchFrom template requested params = some params') {i : ℕ} {expected : JsString} (hi : template[i]? = some expected)
    (hliteral : parameterName expected = none) : requested[i]?.bind decodeURIComponent = some expected := by
  induction template generalizing requested params i with
  | nil => simp at hi
  | cons first template ih =>
    cases requested with
    | nil => cases h
    | cons raw requested =>
      rw [matchFrom] at h
      split_ifs at h with hempty
      split at h
      · cases h
      · rename_i value hvalue
        cases i with
        | zero =>
          rw [List.getElem?_cons_zero, Option.some_inj] at hi
          subst hi
          rw [hliteral] at h
          dsimp only at h
          split_ifs at h with hne
          rw [List.getElem?_cons_zero, Option.bind_some, hvalue, not_not.mp hne]
        | succ i =>
          rw [List.getElem?_cons_succ] at hi ⊢
          split at h
          · split_ifs at h
            exact ih h hi
          · exact ih h hi

variable {toUpperCase} {method : JsString} {requested : List JsString} {a b : CompiledRoute Operation}

theorem method_of_fit {params : Params} (h : a.fit method requested = some params) : a.method = method := by
  by_contra hne
  rw [CompiledRoute.fit, if_pos hne] at h
  cases h

theorem matchSegments_of_fit {params : Params} (h : a.fit method requested = some params) :
    matchSegments a.segments requested = some params := by
  unfold CompiledRoute.fit at h
  split_ifs at h
  all_goals exact h

/-- **Two templates of one request that say as much of it are one up to parameter names.** -/
theorem eq_of_specificity (ha : (a.fit method requested).isSome = true) (hb : (b.fit method requested).isSome = true)
    (h : a.specificity = b.specificity) : a.shape = b.shape := by
  obtain ⟨pa, ha⟩ := Option.isSome_iff_exists.mp ha
  obtain ⟨pb, hb⟩ := Option.isSome_iff_exists.mp hb
  rw [CompiledRoute.specificity, CompiledRoute.specificity, toLex_inj, Prod.mk.injEq, toLex_inj, Prod.mk.injEq, toDual_inj] at h
  obtain ⟨hrest, hlength, hkinds⟩ := h
  rw [CompiledRoute.shape, CompiledRoute.shape, method_of_fit ha, method_of_fit hb, hrest]
  congr 2
  refine List.ext_getElem (by simp [hlength]) fun i hi hi' => ?_
  rw [List.length_map] at hi hi'
  rw [List.getElem_map, List.getElem_map, shapeOf, shapeOf]
  have hkind : (parameterName a.segments[i]).isSome = (parameterName b.segments[i]).isSome := by
    have hget := congrArg (fun l => l[i]?) hkinds
    simpa [hi, hi'] using hget
  rw [← hkind]
  split_ifs with hparameter
  · rfl
  · rw [Bool.not_eq_true, Option.isSome_eq_false_iff, Option.isNone_iff_eq_none] at hparameter
    have hparameter' : parameterName b.segments[i] = none := by
      rw [hparameter] at hkind
      exact Option.isNone_iff_eq_none.mp (Option.isSome_eq_false_iff.mp hkind.symm)
    have hliteral := literal_of_matchFrom (matchSegments_of_fit ha) (List.getElem?_eq_getElem hi) hparameter
    have hliteral' := literal_of_matchFrom (matchSegments_of_fit hb) (List.getElem?_eq_getElem hi') hparameter'
    rw [← hliteral, ← hliteral']

/-! ## The most specific fit -/

section

variable (toUpperCase) (bindings : List (RouteBinding Operation)) (path : JsString)

/-- The compiled routes of some bindings. -/
def compiled : List (CompiledRoute Operation) := bindings.map (compile toUpperCase)

/-- Whether a route fits a request. -/
def fits (method path : JsString) (route : CompiledRoute Operation) : Bool :=
  (route.fit (toUpperCase method) (segmentsOf path)).isSome

/-- The most specific of the routes that fit a request. -/
def MostSpecific (method path : JsString) (route : CompiledRoute Operation) : Prop :=
  route ∈ compiled toUpperCase bindings ∧ fits toUpperCase method path route = true ∧
    ∀ other ∈ compiled toUpperCase bindings, fits toUpperCase method path other = true → other ≠ route →
      route.specificity < other.specificity

/-- **The most specific fit wins**, in every order of registration, and the order makes no difference. -/
structure Resolves : Prop where
  same : ∀ order order' : List (RouteBinding Operation), order.Perm bindings → order'.Perm bindings → ∀ method path,
    matchRoute toUpperCase (routeTable toUpperCase order) method path =
      matchRoute toUpperCase (routeTable toUpperCase order') method path
  most : ∀ order : List (RouteBinding Operation), order.Perm bindings → ∀ method path route params,
    matchRoute toUpperCase (routeTable toUpperCase order) method path = some (route, params) →
      MostSpecific toUpperCase bindings method path route ∧
        route.fit (toUpperCase method) (segmentsOf path) = some params
  none : ∀ order : List (RouteBinding Operation), order.Perm bindings → ∀ method path,
    matchRoute toUpperCase (routeTable toUpperCase order) method path = none →
      ∀ route ∈ compiled toUpperCase bindings, fits toUpperCase method path route = false

/-- The most specific fit of a request sorts before every other fit: it has the smaller rest flag, or as small a one and
fewer parameters. -/
def SortsFirst : Prop :=
  ∀ method path route, MostSpecific toUpperCase bindings method path route →
    ∀ other ∈ compiled toUpperCase bindings, fits toUpperCase method path other = true → other ≠ route → route.key < other.key

end

variable {bindings order : List (RouteBinding Operation)} {path : JsString}

theorem matchRoute_eq (table : List (CompiledRoute Operation)) (method path : JsString) : matchRoute toUpperCase table method path =
    (table.find? (fits toUpperCase method path)).bind fun route =>
      (route.fit (toUpperCase method) (segmentsOf path)).map fun params => (route, params) := by
  induction table with
  | nil => rfl
  | cons route table ih =>
    rw [matchRoute, List.findSome?_cons, List.find?_cons, fits]
    cases hfit : route.fit (toUpperCase method) (segmentsOf path) with
    | none => exact ih
    | some params =>
      show some (route, params) = (some route).bind _
      rw [Option.bind_some, hfit, Option.map_some]

theorem exists_match {route : CompiledRoute Operation} {table : List (CompiledRoute Operation)}
    (h : table.find? (fits toUpperCase method path) = some route) : ∃ params,
      route.fit (toUpperCase method) (segmentsOf path) = some params ∧
        matchRoute toUpperCase table method path = some (route, params) := by
  have hfit : fits toUpperCase method path route = true := List.find?_some h
  obtain ⟨params, hparams⟩ := Option.isSome_iff_exists.mp hfit
  refine ⟨params, hparams, ?_⟩
  rw [matchRoute_eq, h, Option.bind_some, hparams, Option.map_some]

theorem exists_mostSpecific (hdistinct : ((compiled toUpperCase bindings).map CompiledRoute.shape).Nodup)
    {route : CompiledRoute Operation} (hroute : route ∈ compiled toUpperCase bindings)
    (hfit : fits toUpperCase method path route = true) : ∃ most, MostSpecific toUpperCase bindings method path most := by
  classical
  obtain ⟨most, hmost, hleast⟩ := Finset.exists_min_image
    ((compiled toUpperCase bindings).filter (fits toUpperCase method path)).toFinset CompiledRoute.specificity
    ⟨route, by rw [List.mem_toFinset, List.mem_filter]; exact ⟨hroute, hfit⟩⟩
  rw [List.mem_toFinset, List.mem_filter] at hmost
  refine ⟨most, hmost.1, hmost.2, fun other hother hotherFit hne => ?_⟩
  have hle := hleast other (by rw [List.mem_toFinset, List.mem_filter]; exact ⟨hother, hotherFit⟩)
  refine lt_of_le_of_ne hle fun heq => hne ?_
  exact List.inj_on_of_nodup_map hdistinct hother hmost.1 (eq_of_specificity hotherFit hmost.2 heq.symm)

theorem MostSpecific.unique {route other : CompiledRoute Operation} (h : MostSpecific toUpperCase bindings method path route)
    (h' : MostSpecific toUpperCase bindings method path other) : other = route := by
  by_contra hne
  exact lt_asymm (h.2.2 other h'.1 h'.2.1 hne) (h'.2.2 route h.1 h.2.1 (Ne.symm hne))

theorem exists_order {l : List (CompiledRoute Operation)} (h : l.Perm (compiled toUpperCase bindings)) :
    ∃ order : List (RouteBinding Operation), order.Perm bindings ∧ compiled toUpperCase order = l := by
  have hback : (compiled toUpperCase bindings).map CompiledRoute.binding = bindings := by
    rw [compiled, List.map_map]
    exact List.map_id bindings
  refine ⟨l.map CompiledRoute.binding, ?_, ?_⟩
  · rw [← hback]
    exact h.map _
  · rw [compiled, List.map_map]
    refine (List.map_congr_left fun route hroute => ?_).trans (List.map_id l)
    obtain ⟨binding, -, rfl⟩ := List.mem_map.mp (h.mem_iff.mp hroute)
    rfl

/-- **The most specific fit wins, in every order of registration, exactly when it always sorts first.** -/
theorem resolves_iff (toUpperCase : JsString → JsString) (bindings : List (RouteBinding Operation))
    (hdistinct : ((compiled toUpperCase bindings).map CompiledRoute.shape).Nodup) :
    Resolves toUpperCase bindings ↔ SortsFirst toUpperCase bindings := by
  constructor
  · intro h method path route hmost
    refine (Ties.find?_insertionSort_iff CompiledRoute.key (fits toUpperCase method path) hmost.1 hmost.2.1).mp fun l hl => ?_
    obtain ⟨order, horder, rfl⟩ := exists_order hl
    cases hfind : (routeTable toUpperCase order).find? (fits toUpperCase method path) with
    | none =>
      have hnone := h.none order horder method path (by rw [matchRoute_eq, hfind, Option.bind_none]) route hmost.1
      rw [hmost.2.1] at hnone
      cases hnone
    | some other =>
      obtain ⟨params, -, hmatch⟩ := exists_match hfind
      obtain rfl : route = other := (h.most order horder method path other params hmatch).1.unique hmost
      exact hfind
  · intro h
    have hfirst : ∀ {method path route}, MostSpecific toUpperCase bindings method path route →
        ∀ order : List (RouteBinding Operation), order.Perm bindings →
          (routeTable toUpperCase order).find? (fits toUpperCase method path) = some route := by
      intro method path route hmost order horder
      exact (Ties.find?_insertionSort_iff CompiledRoute.key (fits toUpperCase method path) hmost.1 hmost.2.1).mpr
        (h method path route hmost) _ (horder.map _)
    have hmem : ∀ {order : List (RouteBinding Operation)}, order.Perm bindings → ∀ {route},
        route ∈ routeTable toUpperCase order ↔ route ∈ compiled toUpperCase bindings := by
      intro order horder route
      rw [routeTable, List.mem_insertionSort]
      exact (horder.map _).mem_iff
    have hnone : ∀ order : List (RouteBinding Operation), order.Perm bindings → ∀ method path,
        (routeTable toUpperCase order).find? (fits toUpperCase method path) = none →
          ∀ route ∈ compiled toUpperCase bindings, fits toUpperCase method path route = false := by
      intro order horder method path hfind route hroute
      simpa using List.find?_eq_none.mp hfind route ((hmem horder).mpr hroute)
    have hmost : ∀ {order : List (RouteBinding Operation)}, order.Perm bindings → ∀ {method path route},
        (routeTable toUpperCase order).find? (fits toUpperCase method path) = some route →
          MostSpecific toUpperCase bindings method path route := by
      intro order horder method path route hfind
      obtain ⟨most, hmost⟩ := exists_mostSpecific hdistinct ((hmem horder).mp (List.mem_of_find?_eq_some hfind))
        (List.find?_some hfind)
      have hsame := (hfirst hmost order horder).symm.trans hfind
      exact Option.some.inj hsame ▸ hmost
    refine ⟨fun order order' horder horder' method path => ?_, fun order horder method path route params hmatch => ?_,
      fun order horder method path hmatch => ?_⟩
    · rw [matchRoute_eq, matchRoute_eq]
      cases hfind : (routeTable toUpperCase order).find? (fits toUpperCase method path) with
      | some route => rw [hfirst (hmost horder hfind) order' horder']
      | none =>
        cases hfind' : (routeTable toUpperCase order').find? (fits toUpperCase method path) with
        | none => rfl
        | some route =>
          rw [hfirst (hmost horder' hfind') order horder] at hfind
          cases hfind
    · cases hfind : (routeTable toUpperCase order).find? (fits toUpperCase method path) with
      | none =>
        rw [matchRoute_eq, hfind] at hmatch
        cases hmatch
      | some other =>
        obtain ⟨params', hfit, hmatch'⟩ := exists_match hfind
        rw [hmatch', Option.some_inj, Prod.mk.injEq] at hmatch
        obtain ⟨rfl, rfl⟩ := hmatch
        exact ⟨hmost horder hfind, hfit⟩
    · cases hfind : (routeTable toUpperCase order).find? (fits toUpperCase method path) with
      | none => exact hnone order horder method path hfind
      | some route =>
        obtain ⟨params, -, hmatch'⟩ := exists_match hfind
        rw [hmatch'] at hmatch
        cases hmatch

/-! ## Two tables -/

/-- A table of two operations, `/a/{x}` and what is given. -/
def twoRoutes (path : JsString) : List (RouteBinding ℕ) := [⟨js "get", js "/a/{x}", 0⟩, ⟨js "get", path, 1⟩]

theorem resolves_iff_literal : ((compiled id (twoRoutes (js "/a/b"))).map CompiledRoute.shape).Nodup ∧
    (Resolves id (twoRoutes (js "/a/b")) ↔ SortsFirst id (twoRoutes (js "/a/b"))) := by
  have hdistinct : ((compiled id (twoRoutes (js "/a/b"))).map CompiledRoute.shape).Nodup := by decide +kernel
  exact ⟨hdistinct, resolves_iff id (twoRoutes (js "/a/b")) hdistinct⟩

theorem matchRoute_crossed : ((compiled id (twoRoutes (js "/{y}/b"))).map CompiledRoute.shape).Nodup ∧
    (matchRoute id (routeTable id (twoRoutes (js "/{y}/b"))) (js "get") (js "/a/b")).map (·.1.binding.operation) = some 0 ∧
    (matchRoute id (routeTable id (twoRoutes (js "/{y}/b")).reverse) (js "get") (js "/a/b")).map (·.1.binding.operation) =
      some 1 := by
  decide +kernel

/-! ## The files of the web root -/

/-- The files, as far as they are read: the real path of a file, and the bytes of one that is a file. -/
structure FileSystem where
  realpath : JsString → Option JsString
  readFile : JsString → Option (List UInt8)

/-- A file that is answered, with its path below the web root. -/
structure WebFile where
  body : List UInt8
  path : JsString
deriving DecidableEq

def isUnder (path above : JsString) : Bool := path == above || (above ++ [0x2F]).isPrefixOf path

/-- An encoded dot, slash, backslash or NUL. -/
def isSecondLayer : JsString → Bool
  | u :: a :: b :: _ =>
    u == 0x25 && ((a == 0x32 && (b == 0x65 || b == 0x45 || b == 0x66 || b == 0x46)) ||
      (a == 0x35 && (b == 0x63 || b == 0x43)) || (a == 0x30 && b == 0x30))
  | _ => false

/-- The path below the web root that a request names; none where it is declined. -/
def targetOf (pathname : JsString) : Option JsString :=
  match decodeURIComponent pathname with
  | none => none
  | some decoded =>
    if decoded.tails.any isSecondLayer || decoded.contains 0 || decoded.contains 0x5C then none
    else if isUnder decoded (js "/api") || isUnder decoded (js "/go") then none
    else if (segmentsOf decoded).any fun segment => segment == js ".." || segment == js "." then none
    else some (if decoded = js "/" then js "index.html" else [0x2F].intercalate (segmentsOf decoded))

/-- The segments of a path, those of dots resolved. -/
def normalized : List JsString → List JsString → List JsString
  | kept, [] => kept
  | kept, segment :: rest =>
    if segment = [] ∨ segment = js "." then normalized kept rest
    else if segment = js ".." then normalized kept.dropLast rest
    else normalized (kept ++ [segment]) rest

/-- An absolute path. -/
def pathOf (segments : List JsString) : JsString :=
  if segments = [] then [0x2F] else segments.flatMap (0x2F :: ·)

/-- `resolve` of `node:path`, for an absolute path and another. -/
def resolvePath (root path : JsString) : JsString :=
  pathOf (normalized [] ((if path.head? = some 0x2F then path else root ++ 0x2F :: path).splitOn 0x2F))

def isInside (root path : JsString) : Bool := (root ++ [0x2F]).isPrefixOf path

section

variable (fs : FileSystem) (root : JsString)

/-- The only place where a path becomes a file. -/
def readInside (requested : JsString) : Option WebFile :=
  if !isInside root (resolvePath root requested) then none
  else
    match fs.realpath (resolvePath root requested) with
    | none => none
    | some real =>
      if !isInside root real then none
      else (fs.readFile real).map fun body => ⟨body, (resolvePath root requested).drop (root.length + 1)⟩

/-- What `serveWebRoot` answers; none where it declines. -/
def serveWebRoot (method pathname : JsString) (acceptsHtml : Bool) : Option WebFile :=
  if method ≠ js "GET" ∧ method ≠ js "HEAD" then none
  else
    match targetOf pathname with
    | none => none
    | some target =>
      (readInside fs root target).or (if acceptsHtml then readInside fs root (js "index.html") else none)

end

/-- The name of a file or a directory. -/
def IsFileName (name : JsString) : Prop := name ≠ [] ∧ 0x2F ∉ name ∧ name ≠ js "." ∧ name ≠ js ".."

/-- A real path that is not that of the whole file system. -/
structure IsWebRoot (root : JsString) (names : List JsString) : Prop where
  below : names ≠ []
  names_ok : ∀ name ∈ names, IsFileName name
  path : root = names.flatMap (0x2F :: ·)

/-- The names in a path. -/
def namesIn (path : JsString) : List JsString := (path.splitOn 0x2F).filter (· ≠ [])

section

variable {fs : FileSystem} {root decoded : JsString} {rootNames names : List JsString} {file : WebFile}

theorem splitOn_flatMap (h : ∀ name ∈ names, (0x2F : UInt16) ∉ name) :
    (names.flatMap (0x2F :: ·)).splitOn 0x2F = [] :: names := by
  induction names with
  | nil => rfl
  | cons name names ih =>
    rw [List.flatMap_cons, List.cons_append, List.splitOn_cons_eq_if_modifyHead, if_pos (beq_self_eq_true _)]
    have hname := h name List.mem_cons_self
    have hrest := ih fun other hother => h other (List.mem_cons_of_mem _ hother)
    cases names with
    | nil =>
      rw [List.flatMap_nil, List.append_nil, List.splitOn_eq_singleton hname]
    | cons next rest =>
      rw [List.flatMap_cons, List.cons_append, List.splitOn_append_cons_self_of_not_mem hname]
      rw [List.flatMap_cons, List.cons_append, List.splitOn_cons_eq_if_modifyHead, if_pos (beq_self_eq_true _)] at hrest
      rw [List.tail_eq_of_cons_eq hrest]

theorem normalized_eq {segments : List JsString} (kept : List JsString)
    (h : ∀ segment ∈ segments, segment ≠ js "." ∧ segment ≠ js "..") :
    normalized kept segments = kept ++ segments.filter (· ≠ []) := by
  induction segments generalizing kept with
  | nil => exact (List.append_nil kept).symm
  | cons segment rest ih =>
    obtain ⟨hdot, hdots⟩ := h segment List.mem_cons_self
    have hrest := fun kept => ih kept fun other hother => h other (List.mem_cons_of_mem _ hother)
    rw [normalized]
    by_cases hempty : segment = []
    · rw [if_pos (.inl hempty), hrest, @List.filter_cons_of_neg _ (fun x : JsString => decide (x ≠ [])) _ _ (by rw [hempty]; decide)]
    · rw [if_neg (not_or.mpr ⟨hempty, hdot⟩), if_neg hdots, hrest, @List.filter_cons_of_pos _ (fun x : JsString => decide (x ≠ [])) _ _ (decide_eq_true hempty),
        List.append_assoc, List.singleton_append]

/-- **A path inside the root names more than the root.** -/
theorem names_of_isInside (hroot : IsWebRoot root rootNames) (hnames : ∀ name ∈ names, (0x2F : UInt16) ∉ name)
    (h : isInside root (pathOf names) = true) :
    ∃ path, pathOf names = root ++ 0x2F :: path ∧ names = rootNames ++ path.splitOn 0x2F := by
  obtain ⟨path, hpath⟩ := List.isPrefixOf_iff_prefix.mp h
  rw [List.append_assoc, List.singleton_append] at hpath
  have hsplit := congrArg (List.splitOn 0x2F) hpath
  rw [List.splitOn_append_cons_self, hroot.path, splitOn_flatMap fun name hname => (hroot.names_ok name hname).2.1] at hsplit
  refine ⟨path, hpath.symm, ?_⟩
  rw [pathOf] at hsplit
  by_cases hnil : names = []
  · -- the path of no names is a slash, and the root is longer
    rw [pathOf, if_pos hnil] at hpath
    obtain ⟨first, rest, hcons⟩ := List.exists_cons_of_ne_nil hroot.below
    have hlength := congrArg List.length hpath
    rw [hroot.path, hcons, List.flatMap_cons, List.cons_append, List.cons_append, List.length_cons, List.length_append,
      List.length_cons] at hlength
    have hone : ([0x2F] : JsString).length = 1 := rfl
    omega
  · rw [if_neg hnil, splitOn_flatMap hnames, List.cons_append] at hsplit
    exact (List.tail_eq_of_cons_eq hsplit).symm

theorem decodeURIComponent_slash (path : JsString) :
    decodeURIComponent (0x2F :: path) = (decodeURIComponent path).map (0x2F :: ·) := by
  have hoctets : octetsOf (0x2F :: path) = (octetsOf path).map (.unit 0x2F :: ·) := by
    rw [octetsOf]
    · rw [if_neg (by decide)]
    · intro a b s hcons
      cases hcons
  rw [decodeURIComponent, hoctets, decodeURIComponent]
  cases octetsOf path with
  | none => rfl
  | some pieces =>
    show decodeOctets (.unit 0x2F :: pieces) = _
    rw [decodeOctets]
    rfl

theorem segmentsOf_slash (path : JsString) : segmentsOf (0x2F :: path) = path.splitOn 0x2F := by
  rw [segmentsOf, List.splitOn_cons_eq_if_modifyHead, if_pos (beq_self_eq_true _)]
  rfl

theorem mem_of_splitOn {separator u : UInt16} {text : JsString} {part : JsString} (h : part ∈ text.splitOn separator) (hu : u ∈ part) :
    u ∈ text := by
  have hflat : ∀ parts : List JsString, part ∈ parts → u ∈ [separator].intercalate parts := by
    intro parts hpart
    induction parts with
    | nil => cases hpart
    | cons first rest ih =>
      cases rest with
      | nil =>
        obtain rfl := List.mem_singleton.mp hpart
        rw [List.intercalate_singleton]
        exact hu
      | cons next rest =>
        rw [List.intercalate_cons_cons]
        rcases List.mem_cons.mp hpart with rfl | hlater
        · exact List.mem_append_left _ (List.mem_append_left _ hu)
        · exact List.mem_append_right _ (ih hlater)
  have htext := hflat _ h
  rwa [List.intercalate_splitOn] at htext

theorem slash_not_mem {text part : JsString} (h : part ∈ text.splitOn 0x2F) : (0x2F : UInt16) ∉ part := by
  induction text generalizing part with
  | nil =>
    obtain rfl := List.mem_singleton.mp h
    exact List.not_mem_nil
  | cons u rest ih =>
    rw [List.splitOn_cons_eq_if_modifyHead] at h
    by_cases hu : (u == 0x2F) = true
    · rw [if_pos hu] at h
      rcases List.mem_cons.mp h with rfl | hrest
      · exact List.not_mem_nil
      · exact ih hrest
    · rw [if_neg hu] at h
      obtain ⟨first, parts, hsplit⟩ := List.exists_cons_of_ne_nil (List.splitOn_ne_nil 0x2F rest)
      rw [hsplit, List.modifyHead_cons] at h
      rcases List.mem_cons.mp h with rfl | hlater
      · rw [List.mem_cons, not_or]
        exact ⟨fun heq => hu (beq_iff_eq.mpr heq.symm), ih (hsplit ▸ List.mem_cons_self)⟩
      · exact ih (hsplit ▸ List.mem_cons_of_mem _ hlater)

/-- No segment is one of dots. -/
def WithoutDots (path : JsString) : Prop := ∀ segment ∈ path.splitOn 0x2F, segment ≠ js "." ∧ segment ≠ js ".."

/-- **What a request names**: the decoded path after its first slash, or the index. -/
theorem targetOf_eq_some {path target : JsString} (h : targetOf (0x2F :: path) = some target) :
    ∃ decoded, decodeURIComponent path = some decoded ∧ 0 ∉ decoded ∧ 0x5C ∉ decoded ∧ WithoutDots decoded ∧
      isUnder (0x2F :: decoded) (js "/api") = false ∧ isUnder (0x2F :: decoded) (js "/go") = false ∧
      target = if decoded = [] then js "index.html" else decoded := by
  unfold targetOf at h
  rw [decodeURIComponent_slash] at h
  cases hdecoded : decodeURIComponent path with
  | none =>
    rw [hdecoded] at h
    cases h
  | some decoded =>
    rw [hdecoded, Option.map_some] at h
    dsimp only at h
    by_cases hbad : ((0x2F :: decoded).tails.any isSecondLayer || (0x2F :: decoded).contains 0 ||
        (0x2F :: decoded).contains 0x5C) = true
    · rw [if_pos hbad] at h
      cases h
    rw [if_neg hbad] at h
    by_cases hunder : (isUnder (0x2F :: decoded) (js "/api") || isUnder (0x2F :: decoded) (js "/go")) = true
    · rw [if_pos hunder] at h
      cases h
    rw [if_neg hunder, segmentsOf_slash] at h
    by_cases hdots : ((decoded.splitOn 0x2F).any fun segment => segment == js ".." || segment == js ".") = true
    · rw [if_pos hdots] at h
      cases h
    rw [if_neg hdots, List.intercalate_splitOn] at h
    simp only [Bool.or_eq_true, not_or, List.contains_iff_mem] at hbad
    simp only [Bool.or_eq_true, not_or, Bool.not_eq_true] at hunder
    have hslash : (0x2F :: decoded = js "/") ↔ decoded = [] :=
      ⟨fun heq => (List.cons.inj heq).2, fun heq => heq ▸ rfl⟩
    refine ⟨decoded, rfl, fun hmem => hbad.1.2 (List.mem_cons_of_mem _ hmem), fun hmem => hbad.2 (List.mem_cons_of_mem _ hmem),
      fun segment hsegment => ?_, hunder.1, hunder.2, ?_⟩
    · have hnot : ¬ (segment == js ".." || segment == js ".") = true := fun hdot =>
        hdots (List.any_eq_true.mpr ⟨segment, hsegment, hdot⟩)
      rw [Bool.or_eq_true, not_or, beq_iff_eq, beq_iff_eq] at hnot
      exact ⟨hnot.2, hnot.1⟩
    · by_cases hempty : decoded = []
      · rw [if_pos (hslash.mpr hempty)] at h
        rw [if_pos hempty]
        exact (Option.some.inj h).symm
      · rw [if_neg fun heq => hempty (hslash.mp heq)] at h
        rw [if_neg hempty]
        have htext : (0x2F :: decoded).drop 1 = decoded := rfl
        exact (Option.some.inj h).symm

/-- Where a path without dots leads. -/
theorem resolvePath_eq (hroot : IsWebRoot root rootNames) {path : JsString} (hdots : WithoutDots path) :
    resolvePath root path = pathOf (if path.head? = some 0x2F then namesIn path else rootNames ++ namesIn path) := by
  rw [resolvePath]
  by_cases hslash : path.head? = some 0x2F
  · rw [if_pos hslash, if_pos hslash, normalized_eq [] hdots, List.nil_append]
    rfl
  · have hroots : rootNames.filter (· ≠ []) = rootNames :=
      List.filter_eq_self.mpr fun name hname => decide_eq_true (hroot.names_ok name hname).1
    rw [if_neg hslash, if_neg hslash, List.splitOn_append_cons_self, hroot.path,
      splitOn_flatMap fun name hname => (hroot.names_ok name hname).2.1]
    rw [normalized_eq [], List.nil_append, List.filter_append]
    · rw [@List.filter_cons_of_neg _ (fun x : JsString => decide (x ≠ [])) _ _ (by decide), hroots]
      rfl
    · intro segment hsegment
      rcases List.mem_append.mp hsegment with hin | hin
      · rcases List.mem_cons.mp hin with rfl | hname
        · decide
        · exact (hroot.names_ok segment hname).2.2
      · exact hdots segment hin

/-- **A file is read below the root only**, in the file system and by its path. -/
theorem readInside_eq_some (hroot : IsWebRoot root rootNames) {requested : JsString} (hdots : WithoutDots requested)
    (h : readInside fs root requested = some file) :
    ∃ names real, names ≠ [] ∧ (∀ name ∈ names, IsFileName name ∧ name ∈ requested.splitOn 0x2F) ∧
      file.path = [0x2F].intercalate names ∧ fs.realpath (root ++ 0x2F :: file.path) = some real ∧
      isInside root real = true ∧ fs.readFile real = some file.body ∧
      if requested.head? = some 0x2F then namesIn requested = rootNames ++ names else namesIn requested = names := by
  unfold readInside at h
  by_cases hin : isInside root (resolvePath root requested) = true
  · rw [hin, Bool.not_true, if_neg Bool.false_ne_true] at h
    cases hreal : fs.realpath (resolvePath root requested) with
    | none =>
      rw [hreal] at h
      cases h
    | some real =>
      rw [hreal] at h
      dsimp only at h
      by_cases hinside : isInside root real = true
      · rw [hinside, Bool.not_true, if_neg Bool.false_ne_true] at h
        obtain ⟨body, hbody, rfl⟩ := Option.map_eq_some_iff.mp h
        have hall (name : JsString) (hname : name ∈ namesIn requested) : IsFileName name ∧ name ∈ requested.splitOn 0x2F := by
          obtain ⟨hmem, hne⟩ := List.mem_filter.mp hname
          exact ⟨⟨of_decide_eq_true hne, slash_not_mem hmem, hdots name hmem⟩, hmem⟩
        rw [resolvePath_eq hroot hdots] at hin hreal
        have hslashes : ∀ name ∈ (if requested.head? = some 0x2F then namesIn requested else rootNames ++ namesIn requested),
            (0x2F : UInt16) ∉ name := by
          intro name hname
          split at hname
          · exact (hall name hname).1.2.1
          · rcases List.mem_append.mp hname with hleft | hright
            · exact (hroot.names_ok name hleft).2.1
            · exact (hall name hright).1.2.1
        obtain ⟨path, hpath, hnames⟩ := names_of_isInside hroot hslashes hin
        have hdrop : (resolvePath root requested).drop (root.length + 1) = path := by
          rw [resolvePath_eq hroot hdots, hpath, ← List.drop_drop, List.drop_left]
          rfl
        have hjoined : [0x2F].intercalate (path.splitOn 0x2F) = path := List.intercalate_splitOn 0x2F
        have hgiven : if requested.head? = some 0x2F then namesIn requested = rootNames ++ path.splitOn 0x2F
            else namesIn requested = path.splitOn 0x2F := by
          split
          · next hslash =>
            rw [if_pos hslash] at hnames
            exact hnames
          · next hslash =>
            rw [if_neg hslash] at hnames
            exact List.append_cancel_left hnames
        refine ⟨path.splitOn 0x2F, real, List.splitOn_ne_nil 0x2F path, fun name hname => ?_, ?_, ?_, hinside, hbody, hgiven⟩
        · refine hall name ?_
          split at hgiven
          · exact hgiven ▸ List.mem_append_right _ hname
          · exact hgiven ▸ hname
        · show (resolvePath root requested).drop (root.length + 1) = _
          rw [hdrop, hjoined]
        · show fs.realpath (root ++ 0x2F :: (resolvePath root requested).drop (root.length + 1)) = some real
          rw [hdrop, ← hpath]
          exact hreal
      · rw [Bool.not_eq_true] at hinside
        rw [hinside, Bool.not_false, if_pos rfl] at h
        cases h
  · rw [Bool.not_eq_true] at hin
    rw [hin, Bool.not_false, if_pos rfl] at h
    cases h

/-- A path whose first name is that of a reserved one is under it. -/
theorem isUnder_of_head {above path : JsString} (hslash : path.head? ≠ some 0x2F) (h : (namesIn path).head? = some above) :
    isUnder (0x2F :: path) (0x2F :: above) = true := by
  obtain ⟨first, rest, hsplit⟩ := List.exists_cons_of_ne_nil (List.splitOn_ne_nil 0x2F path)
  have hpath : [0x2F].intercalate (first :: rest) = path := hsplit ▸ List.intercalate_splitOn 0x2F
  have hfirst : first = above := by
    by_cases hempty : first = []
    · cases rest with
      | nil =>
        rw [namesIn, hsplit, hempty] at h
        cases h
      | cons next rest =>
        rw [hempty, List.intercalate_cons_cons, List.nil_append] at hpath
        exact absurd (hpath ▸ rfl) hslash
    · rw [namesIn, hsplit, @List.filter_cons_of_pos _ (fun x : JsString => decide (x ≠ [])) _ _ (decide_eq_true hempty)] at h
      exact Option.some.inj h
  subst hfirst
  rw [isUnder, Bool.or_eq_true]
  cases rest with
  | nil =>
    rw [List.intercalate_singleton] at hpath
    exact .inl (beq_iff_eq.mpr (congrArg _ hpath.symm))
  | cons next rest =>
    rw [List.intercalate_cons_cons] at hpath
    refine .inr (List.isPrefixOf_iff_prefix.mpr ⟨[0x2F].intercalate (next :: rest), ?_⟩)
    rw [← hpath]
    simp only [List.cons_append, List.append_assoc]

/-- **What is answered is below the web root**: a request is answered with the file at the names of its decoded path, none of
which is of dots or holds a slash, a backslash or a NUL, or with the index; the first name is neither `api` nor `go`, unless
the request has written the whole path of the root behind two slashes. -/
theorem serveWebRoot_inside (hroot : IsWebRoot root rootNames) {method path : JsString} {acceptsHtml : Bool}
    (h : serveWebRoot fs root method (0x2F :: path) acceptsHtml = some file) :
    ∃ names real, names ≠ [] ∧ (∀ name ∈ names, IsFileName name ∧ 0 ∉ name ∧ 0x5C ∉ name) ∧
      file.path = [0x2F].intercalate names ∧ fs.realpath (root ++ 0x2F :: file.path) = some real ∧
      isInside root real = true ∧ fs.readFile real = some file.body ∧
      (names = [js "index.html"] ∨ ∃ decoded, decodeURIComponent path = some decoded ∧
        (decoded.head? ≠ some 0x2F ∧ namesIn decoded = names ∧ names.head? ≠ some (js "api") ∧ names.head? ≠ some (js "go") ∨
          decoded.head? = some 0x2F ∧ namesIn decoded = rootNames ++ names)) := by
  have hindex (hread : readInside fs root (js "index.html") = some file) :
      ∃ names real, names ≠ [] ∧ (∀ name ∈ names, IsFileName name ∧ 0 ∉ name ∧ 0x5C ∉ name) ∧
        file.path = [0x2F].intercalate names ∧ fs.realpath (root ++ 0x2F :: file.path) = some real ∧
        isInside root real = true ∧ fs.readFile real = some file.body ∧ names = [js "index.html"] := by
    have hdots : WithoutDots (js "index.html") := by unfold WithoutDots; decide
    obtain ⟨names, real, hne, hnames, hpath, hreal, hinside, hbody, hgiven⟩ := readInside_eq_some hroot hdots hread
    rw [if_neg (by decide)] at hgiven
    obtain rfl : [js "index.html"] = names := hgiven
    refine ⟨_, real, hne, fun name hname => ⟨(hnames name hname).1, ?_⟩, hpath, hreal, hinside, hbody, rfl⟩
    obtain rfl := List.mem_singleton.mp hname
    decide
  unfold serveWebRoot at h
  by_cases hmethod : method ≠ js "GET" ∧ method ≠ js "HEAD"
  · rw [if_pos hmethod] at h
    cases h
  rw [if_neg hmethod] at h
  cases htarget : targetOf (0x2F :: path) with
  | none =>
    rw [htarget] at h
    cases h
  | some target =>
    rw [htarget] at h
    dsimp only at h
    obtain ⟨decoded, hdecoded, hnul, hbackslash, hdots, hapi, hgo, rfl⟩ := targetOf_eq_some htarget
    rcases Option.or_eq_some_iff.mp h with hread | ⟨-, hread⟩
    · by_cases hempty : decoded = []
      · rw [if_pos hempty] at hread
        obtain ⟨names, real, hne, hnames, hpath, hreal, hinside, hbody, hname⟩ := hindex hread
        exact ⟨names, real, hne, hnames, hpath, hreal, hinside, hbody, .inl hname⟩
      · rw [if_neg hempty] at hread
        obtain ⟨names, real, hne, hnames, hpath, hreal, hinside, hbody, hgiven⟩ := readInside_eq_some hroot hdots hread
        refine ⟨names, real, hne, fun name hname => ⟨(hnames name hname).1,
          fun hmem => hnul (mem_of_splitOn (hnames name hname).2 hmem),
          fun hmem => hbackslash (mem_of_splitOn (hnames name hname).2 hmem)⟩, hpath, hreal, hinside, hbody,
          .inr ⟨decoded, hdecoded, ?_⟩⟩
        by_cases hslash : decoded.head? = some 0x2F
        · rw [if_pos hslash] at hgiven
          exact .inr ⟨hslash, hgiven⟩
        · rw [if_neg hslash] at hgiven
          subst hgiven
          refine .inl ⟨hslash, rfl, fun hhead => ?_, fun hhead => ?_⟩
          · exact Bool.false_ne_true (hapi.symm.trans (isUnder_of_head hslash hhead))
          · exact Bool.false_ne_true (hgo.symm.trans (isUnder_of_head hslash hhead))
    · cases acceptsHtml with
      | false => cases hread
      | true =>
        obtain ⟨names, real, hne, hnames, hpath, hreal, hinside, hbody, hname⟩ := hindex hread
        exact ⟨names, real, hne, hnames, hpath, hreal, hinside, hbody, .inl hname⟩

/-- A web root without links, whose files hold a byte. -/
def plainFiles : FileSystem where
  realpath := some
  readFile _ := some [0x61]

theorem isWebRoot_plain : IsWebRoot (js "/srv/web") [js "srv", js "web"] where
  below := List.cons_ne_nil _ _
  names_ok := by unfold IsFileName; decide
  path := by decide

theorem serveWebRoot_inside_plain :
    (∃ names real, names ≠ [] ∧ (∀ name ∈ names, IsFileName name ∧ 0 ∉ name ∧ 0x5C ∉ name) ∧
      js "assets/a.js" = [0x2F].intercalate names ∧ plainFiles.realpath (js "/srv/web" ++ 0x2F :: js "assets/a.js") = some real ∧
      isInside (js "/srv/web") real = true ∧ plainFiles.readFile real = some [0x61] ∧
      (names = [js "index.html"] ∨ ∃ decoded, decodeURIComponent (js "assets%2fa.js") = some decoded ∧
        (decoded.head? ≠ some 0x2F ∧ namesIn decoded = names ∧ names.head? ≠ some (js "api") ∧ names.head? ≠ some (js "go") ∨
          decoded.head? = some 0x2F ∧ namesIn decoded = [js "srv", js "web"] ++ names))) ∧
    (serveWebRoot plainFiles (js "/srv/web") (js "GET") (js "//srv/web/api") false).isSome = true :=
  ⟨@serveWebRoot_inside plainFiles _ _ ⟨[0x61], js "assets/a.js"⟩ isWebRoot_plain (js "GET") (js "assets%2fa.js") false
    (by decide +kernel), by decide +kernel⟩

end

end SlugBase.Http
