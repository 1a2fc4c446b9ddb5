import SayFirst.Lib.JsonRound
import SayFirst.Lib.Reference
import SayFirst.Spec.RequestTarget

/-!
# A request arrives as it was meant

A daemon of every service reads out of the target of a request what the client wrote into it,
whatever the texts are: no reference and no scope can name another operation, nor a member of the
query that is not theirs.

* `Surface.matchTarget_path` — the operation and the values of a path come back.
* `request_arrives` — so does the whole request.
-/

namespace SayFirst

open Py
open Py.Template (pieces fill match_ taken whole IsSegment)

namespace Py

/-- A quoted text is a segment, where there is a text at all. -/
theorem isSegment_quote {s q : Str} (h : quote s = some q) (hs : s ≠ []) : IsSegment q := by
  constructor
  · rintro rfl
    have := unquote_quote h
    exact hs this.symm
  · intro c hc hslash
    have := quote_bounds h hc
    omega

end Py

namespace Client

/-- No template writes a mark that ends a path, and each begins with one slash. -/
theorem Operation.path_marks (operation : Operation) :
    (∀ p ∈ pieces operation.path, p ≠ .char 35 ∧ p ≠ .char 63) ∧
      ∃ c ps, pieces operation.path = .char 47 :: .char c :: ps ∧ c ≠ 47 := by
  cases operation <;> exact ⟨by decide, _, _, rfl, by decide⟩

namespace Inquiry

/-- What the path carries is not empty. -/
def Named (inquiry : Inquiry) : Prop := ∀ value ∈ inquiry.parameters, value.2 ≠ []

instance (inquiry : Inquiry) : Decidable inquiry.Named :=
  inferInstanceAs (Decidable (∀ value ∈ inquiry.parameters, value.2 ≠ []))

theorem quoted_some {inquiry : Inquiry} {values : Values}
    (h : quoted inquiry.parameters = some values) :
    (inquiry.parameters = [] ∧ values = []) ∨
      ∃ name value q, inquiry.parameters = [(name, value)] ∧ quote value = some q ∧
        values = [(name, q)] := by
  have hparameters : inquiry.parameters = [] ∨
      ∃ name value, inquiry.parameters = [(name, value)] := by
    cases inquiry <;> simp [parameters]
  rcases hparameters with hnil | ⟨name, value, hone⟩
  · rw [hnil] at h
    exact .inl ⟨hnil, (Option.some.inj h).symm⟩
  · rw [hone] at h
    unfold quoted at h
    rw [List.mapM_cons, List.mapM_nil] at h
    obtain ⟨pair, hpair, h⟩ := Option.bind_eq_some_iff.1 h
    obtain ⟨q, hq, rfl⟩ := Option.map_eq_some_iff.1 hpair
    exact .inr ⟨name, value, q, hone, hq, (Option.some.inj h).symm⟩

/-- A value that stands in a path is a parameter, quoted. -/
theorem quoted_lookup {parameters : Values} : ∀ {values : Values},
    quoted parameters = some values → ∀ {name q : Str}, values.lookup name = some q →
      ∃ value ∈ parameters, quote value.2 = some q := by
  induction parameters with
  | nil =>
    intro values h name q hlookup
    obtain rfl : values = [] := (Option.some.inj h).symm
    cases hlookup
  | cons parameter parameters ih =>
    intro values h name q hlookup
    unfold quoted at h
    rw [List.mapM_cons] at h
    obtain ⟨pair, hpair, h⟩ := Option.bind_eq_some_iff.1 h
    obtain ⟨rest, hrest, h⟩ := Option.bind_eq_some_iff.1 h
    obtain rfl : values = pair :: rest := (Option.some.inj h).symm
    obtain ⟨text, htext, rfl⟩ := Option.map_eq_some_iff.1 hpair
    rw [List.lookup_cons] at hlookup
    split at hlookup
    · obtain rfl := Option.some.inj hlookup
      exact ⟨parameter, List.mem_cons_self, htext⟩
    · obtain ⟨value, hmem, hq⟩ := ih hrest hlookup
      exact ⟨value, List.mem_cons_of_mem _ hmem, hq⟩

theorem target_some {generation : ℤ} {inquiry : Inquiry} {target : Str}
    (h : inquiry.target generation = some target) :
    ∃ values path suffix, quoted inquiry.parameters = some values ∧
      inquiry.operation.target values = some path ∧
      querySuffix generation inquiry.members = some suffix ∧ target = path ++ suffix := by
  unfold Inquiry.target at h
  obtain ⟨values, hvalues, h⟩ := Option.bind_eq_some_iff.1 h
  obtain ⟨path, hpath, h⟩ := Option.bind_eq_some_iff.1 h
  obtain ⟨suffix, hsuffix, h⟩ := Option.bind_eq_some_iff.1 h
  exact ⟨values, path, suffix, hvalues, hpath, hsuffix, (Option.some.inj h).symm⟩

theorem querySuffix_some {generation : ℤ} {members : Option (Option Values)} {suffix : Str}
    (h : querySuffix generation members = some suffix) :
    (members = none ∧ suffix = []) ∨
      ∃ rest text query, members = some (some rest) ∧ written generation = some text ∧
        urlencode ((lit "contract_generation", text) :: rest) = some query ∧
        suffix = 63 :: query := by
  cases members with
  | none => exact .inl ⟨rfl, (Option.some.inj h).symm⟩
  | some members =>
    unfold querySuffix at h
    obtain ⟨text, htext, h⟩ := Option.bind_eq_some_iff.1 h
    obtain ⟨rest, hrest, h⟩ := Option.bind_eq_some_iff.1 h
    obtain ⟨query, hquery, h⟩ := Option.bind_eq_some_iff.1 h
    exact .inr ⟨rest, text, query, by rw [hrest], htext, hquery, (Option.some.inj h).symm⟩

/-- A path that was written has no mark that ends it, and begins with one slash. -/
theorem path_plain {inquiry : Inquiry} {values : Values} {path : Str}
    (hvalues : quoted inquiry.parameters = some values)
    (hpath : inquiry.operation.target values = some path) :
    (∀ c ∈ path, c ≠ 35 ∧ c ≠ 63) ∧ ∃ c rest, path = 47 :: c :: rest ∧ c ≠ 47 := by
  obtain ⟨hmarks, c, ps, hpieces, hc⟩ := inquiry.operation.path_marks
  constructor
  · intro d hd
    rcases Template.fill_mem hpath hd with hmem | ⟨name, value, hlookup, hmem⟩
    · have := hmarks _ hmem
      exact ⟨fun hd => this.1 (by rw [hd]), fun hd => this.2 (by rw [hd])⟩
    · obtain ⟨_, -, hquote⟩ := quoted_lookup hvalues hlookup
      have := quote_bounds hquote hmem
      omega
  · unfold Operation.target at hpath
    rw [hpieces] at hpath
    obtain ⟨_, hrest, rfl⟩ := Template.fill_char_some hpath
    obtain ⟨rest, -, rfl⟩ := Template.fill_char_some hrest
    exact ⟨c, rest, rfl, hc⟩

end Inquiry

end Client

namespace Plane.Surface

open Client (Inquiry Operation)

theorem folded_path {c : ℕ} {path suffix : Str} (h : ∃ rest, path = 47 :: c :: rest)
    (hc : c ≠ 47) : folded (path ++ suffix) = path ++ suffix := by
  obtain ⟨rest, rfl⟩ := h
  show folded (47 :: c :: (rest ++ suffix)) = _
  unfold folded
  split
  · rename_i heq
    exact absurd (List.cons.inj (List.cons.inj heq).2).1 hc
  · rfl

/-- A target with a query. -/
theorem urlsplit_query {path query : Str} (hpath : ∀ c ∈ path, c ≠ 35 ∧ c ≠ 63)
    (hquery : ∀ c ∈ query, c ≠ 35) : urlsplit (path ++ 63 :: query) = (path, query) := by
  have hwhole : (path ++ 63 :: query).takeWhile (· ≠ 35) = path ++ 63 :: query := by
    rw [List.takeWhile_eq_self_iff]
    intro c hc
    rcases List.mem_append.1 hc with hc | hc
    · simpa using (hpath c hc).1
    · rcases List.mem_cons.1 hc with rfl | hc
      · rfl
      · simpa using hquery c hc
  have hbefore : ∀ c ∈ path, decide (c ≠ 63) = true := fun c hc => by simpa using (hpath c hc).2
  unfold urlsplit
  simp only [hwhole]
  rw [List.takeWhile_append_of_pos hbefore, List.dropWhile_append_of_pos hbefore]
  simp

/-- A target without one. -/
theorem urlsplit_path {path : Str} (hpath : ∀ c ∈ path, c ≠ 35 ∧ c ≠ 63) :
    urlsplit path = (path, []) := by
  have hwhole : path.takeWhile (· ≠ 35) = path := by
    rw [List.takeWhile_eq_self_iff]
    intro c hc
    simpa using (hpath c hc).1
  have hbefore : ∀ c ∈ path, decide (c ≠ 63) = true := fun c hc => by simpa using (hpath c hc).2
  have hall : path.takeWhile (· ≠ 63) = path := List.takeWhile_eq_self_iff.2 hbefore
  have hnone : path.dropWhile (· ≠ 63) = [] := List.dropWhile_eq_nil_iff.2 hbefore
  unfold urlsplit
  simp only [hwhole, hall, hnone]
  rfl

/-- The routes of one method are apart, so their order does not matter. -/
theorem matchers_apart (method : Client.Method) :
    (∀ other ∈ matchers method, whole other.1 = true) ∧
      (matchers method).Pairwise (fun a b => Template.apart a.1 b.1 = true) := by
  cases method <;> exact ⟨by decide, by decide⟩

theorem mem_matchers (operation : Operation) :
    (pieces operation.path, operation) ∈ matchers operation.method := by
  cases operation <;> decide

/-- What is written into a path is what its template asks for. -/
theorem variableNames_path (inquiry : Inquiry) :
    Template.variableNames (pieces inquiry.operation.path) = inquiry.parameters.map (·.1) := by
  cases inquiry <;> rfl

/-- An empty segment is matched by no route. -/
theorem unnamed_target {operation : Operation} {name : Str}
    (h : Template.variableNames (pieces operation.path) = [name]) :
    (operation.target [(name, [])]).bind (matchTarget operation.method) = none := by
  cases operation with
  | readStatus | readWhoami | askDecision | readPolicyStatus => cases h
  | readDecision | readApproval | resolveApproval | readEvidence | exportEvidence =>
    obtain rfl := (List.cons.inj h).1
    decide

/-- **The operation and the values of a path come back.** -/
theorem matchTarget_path {inquiry : Inquiry} {values : Values} {path : Str}
    (hvalues : Inquiry.quoted inquiry.parameters = some values)
    (hpath : inquiry.operation.target values = some path) :
    matchTarget inquiry.operation.method path =
      if inquiry.Named then some (inquiry.operation, inquiry.parameters) else none := by
  obtain ⟨hwhole, hapart⟩ := matchers_apart inquiry.operation.method
  have hmem := mem_matchers inquiry.operation
  by_cases hnamed : inquiry.Named
  · have hsegments : ∀ name value, values.lookup name = some value → IsSegment value := by
      intro name value hlookup
      obtain ⟨parameter, hmember, hquote⟩ := Inquiry.quoted_lookup hvalues hlookup
      exact isSegment_quote hquote (hnamed parameter hmember)
    -- the target matches its own template, and no other of its method matches it
    have hmatch := Template.match_fill hsegments (hwhole _ hmem) hpath
    have hfirst := Template.firstMatch_of_mem hwhole hapart hmem hmatch
    have htaken : (taken values (pieces inquiry.operation.path)).map
        (fun value => (value.1, unquote value.2)) = inquiry.parameters := by
      rcases Inquiry.quoted_some hvalues with ⟨hnil, rfl⟩ | ⟨name, text, q, hone, hq, rfl⟩
      · rw [taken, variableNames_path, hnil]
        rfl
      · rw [taken, variableNames_path, hone, List.map_singleton, List.filterMap_cons,
          List.lookup_cons_self, List.filterMap_nil]
        show [(name, unquote q)] = _
        rw [unquote_quote hq]
    rw [matchTarget, hfirst, if_pos hnamed, Option.map_some, htaken]
  · rw [if_neg hnamed]
    rcases Inquiry.quoted_some hvalues with ⟨hnil, -⟩ | ⟨name, text, q, hone, hq, rfl⟩
    · exact absurd (fun value hvalue => by rw [hnil] at hvalue; cases hvalue) hnamed
    · -- an empty text is quoted to an empty segment, which a variable never takes
      have htext : text = [] := by
        by_contra htext
        apply hnamed
        intro value hvalue
        rw [hone] at hvalue
        rw [List.mem_singleton.1 hvalue]
        exact htext
      subst htext
      obtain rfl : [] = q := Option.some.inj hq
      have hvariable := variableNames_path inquiry
      rw [hone] at hvariable
      have := unnamed_target hvariable
      rw [hpath] at this
      exact this

/-- What the daemon reads of a target that was written: its route, and its query. -/
theorem split_target {generation : ℤ} {inquiry : Inquiry} {target : Str}
    (h : inquiry.target generation = some target) :
    matchTarget inquiry.operation.method (urlsplit (folded target)).1 =
        (if inquiry.Named then some (inquiry.operation, inquiry.parameters) else none) ∧
      ∀ members, inquiry.members = some members → ∃ rest text, members = some rest ∧
        Inquiry.written generation = some text ∧
        parseQsl (urlsplit (folded target)).2 = (lit "contract_generation", text) :: rest := by
  obtain ⟨values, path, suffix, hvalues, hpath, hsuffix, rfl⟩ := Inquiry.target_some h
  obtain ⟨hplain, c, after, hhead, hc⟩ := Inquiry.path_plain hvalues hpath
  have hmatch := matchTarget_path hvalues hpath
  rw [folded_path ⟨after, hhead⟩ hc]
  rcases Inquiry.querySuffix_some hsuffix with ⟨hnone, rfl⟩ |
    ⟨rest, text, query, hsome, htext, hquery, rfl⟩
  · rw [List.append_nil, urlsplit_path hplain]
    refine ⟨hmatch, ?_⟩
    intro members hmembers
    rw [hnone] at hmembers
    cases hmembers
  · have hmarks : ∀ c ∈ query, c ≠ 35 := by
      intro c hc
      have := urlencode_bounds hquery hc
      omega
    rw [urlsplit_query hplain hmarks]
    refine ⟨hmatch, ?_⟩
    intro members hmembers
    rw [hsome] at hmembers
    exact ⟨rest, text, (Option.some.inj hmembers).symm, htext, parseQsl_urlencode hquery⟩

end Plane.Surface

namespace Client.Inquiry

/-- What an operation asks of the services. -/
def routed : Inquiry → Plane.Routed
  | readStatus => .status
  | readWhoami => .whoami
  | askDecision => .ask
  | readDecision scope ref => .decision scope ref
  | readPolicyStatus => .policyStatus
  | readApproval scope ref => .approval scope ref
  | resolveApproval ref => .resolution ref
  | readEvidence scope start size => .page scope start size
  | exportEvidence scope start stop => .export_ scope start stop

/-- Whether its target carries a generation. -/
def declares (inquiry : Inquiry) : Bool := inquiry.members.isSome

end Client.Inquiry

namespace Plane.Surface

open Client (Inquiry Operation)

variable {py : Interpreter}

theorem generationRefusal_cons {generation : ℤ} {text : Str} {rest : Values}
    (hread : py.intOfText text = some generation)
    (hrest : ∀ value ∈ rest, value.1 ≠ lit "contract_generation") :
    generationRefusal py ((lit "contract_generation", text) :: rest) =
      if Client.supportedGenerations.contains generation then none
      else some ⟨"generation_unsupported", "contract_generation is not supported"⟩ := by
  have hfilter : rest.filter (·.1 = lit "contract_generation") = [] := by
    rw [List.filter_eq_nil_iff]
    intro value hvalue
    simpa using hrest value hvalue
  have hone :
      one ((lit "contract_generation", text) :: rest) "contract_generation" = some text := by
    rw [one, List.filter_cons_of_pos (by simp), hfilter]
  rw [generationRefusal, hone]
  simp only [hread]

/-- The read of an operation that carries its generation. -/
theorem doGet_reads {target text : Str} {operation : Operation} {parameters rest : Values}
    {generation : ℤ}
    (hmatch : matchTarget .get (urlsplit target).1 = some (operation, parameters))
    (hkept : operation ≠ .readStatus ∧ operation ≠ .readWhoami)
    (hparse : parseQsl (urlsplit target).2 = (lit "contract_generation", text) :: rest)
    (hread : py.intOfText text = some generation)
    (hrest : ∀ value ∈ rest, value.1 ≠ lit "contract_generation") :
    doGet py ⟨true, true⟩ target =
      if Client.supportedGenerations.contains generation then
        reads py ⟨true, true⟩ operation parameters ((lit "contract_generation", text) :: rest)
      else .error ⟨"generation_unsupported", "contract_generation is not supported"⟩ := by
  have hrefusal := generationRefusal_cons hread hrest
  unfold doGet
  rw [hmatch, hparse, hrefusal]
  cases operation with
  | readStatus => exact absurd rfl hkept.1
  | readWhoami => exact absurd rfl hkept.2
  | _ =>
    by_cases hsupported : Client.supportedGenerations.contains generation = true
    · simp only [hsupported, if_true]
      rfl
    · simp only [hsupported]
      rfl

/-- A member of the evidence query that is a number. -/
theorem integer_lookup {values : Values} {name : String} {text : Str} {n : ℤ}
    (hlookup : values.lookup (lit name) = some text) (hread : py.intOfText text = some n) :
    integer py values name = .ok (some n) := by
  unfold integer
  rw [hlookup]
  simp only [hread]

theorem required_lookup {values : Values} {name : String} {text : Str} {n : ℤ}
    (hlookup : values.lookup (lit name) = some text) (hread : py.intOfText text = some n) :
    required py values name = .ok n := by
  unfold required
  rw [integer_lookup hlookup hread]
  rfl

theorem readEvidence_ok {scope : Str} {query values : Values} {start : ℤ} {size : Option ℤ}
    (hvalues : queryValues ["contract_generation", "from_sequence", "page_size"] query = .ok values)
    (hstart : required py values "from_sequence" = .ok start)
    (hsize : integer py values "page_size" = .ok size) :
    readEvidence py scope query = .ok (.page scope start (size.getD pageBound)) := by
  unfold readEvidence
  rw [hvalues]
  show (required py values "from_sequence" >>= fun start =>
    integer py values "page_size" >>= fun size =>
      pure (Routed.page scope start (size.getD pageBound))) = _
  rw [hstart, hsize]
  rfl

theorem exportEvidence_ok {scope : Str} {query values : Values} {start : ℤ} {stop : Option ℤ}
    (hvalues : queryValues ["contract_generation", "from_sequence", "to_sequence"] query =
      .ok values)
    (hstart : required py values "from_sequence" = .ok start)
    (hstop : integer py values "to_sequence" = .ok stop) :
    exportEvidence py scope query = .ok (.export_ scope start stop) := by
  unfold exportEvidence
  rw [hvalues]
  show (required py values "from_sequence" >>= fun start =>
    integer py values "to_sequence" >>= fun stop => pure (Routed.export_ scope start stop)) = _
  rw [hstart, hstop]
  rfl

/-- An operation that carries its generation is answered behind it, as its query says. -/
theorem reads_inquiry {inquiry : Inquiry} {rest : Values} (text : Str)
    (hint : ∀ n text, Inquiry.written n = some text → py.intOfText text = some n)
    (hmembers : inquiry.members = some (some rest)) :
    (∀ value ∈ rest, value.1 ≠ lit "contract_generation") ∧
      reads py ⟨true, true⟩ inquiry.operation inquiry.parameters
        ((lit "contract_generation", text) :: rest) = .ok inquiry.routed := by
  have hscope : lit "scope" ≠ lit "contract_generation" := by decide
  cases inquiry with
  | readStatus | readWhoami | askDecision | resolveApproval ref => cases hmembers
  | readPolicyStatus =>
    obtain rfl : [] = rest := Option.some.inj (Option.some.inj hmembers)
    refine ⟨?_, rfl⟩
    intro value hvalue
    cases hvalue
  | readDecision scope ref | readApproval scope ref =>
    obtain rfl : [(lit "scope", scope)] = rest := Option.some.inj (Option.some.inj hmembers)
    refine ⟨?_, rfl⟩
    intro value hvalue
    rw [List.mem_singleton.1 hvalue]
    exact hscope
  | readEvidence scope start size =>
    obtain ⟨first, hfirst, hrest⟩ := Option.bind_eq_some_iff.1 (Option.some.inj hmembers)
    obtain ⟨second, hsecond, hrest⟩ := Option.bind_eq_some_iff.1 hrest
    obtain rfl := Option.some.inj hrest
    refine ⟨by simp, ?_⟩
    have hvalues : queryValues ["contract_generation", "from_sequence", "page_size"]
        [(lit "contract_generation", text), (lit "from_sequence", first),
          (lit "page_size", second)] = .ok [(lit "contract_generation", text),
            (lit "from_sequence", first), (lit "page_size", second)] := rfl
    exact readEvidence_ok hvalues (required_lookup rfl (hint _ _ hfirst))
      (integer_lookup rfl (hint _ _ hsecond))
  | exportEvidence scope start stop =>
    cases stop with
    | none =>
      obtain ⟨first, hfirst, hrest⟩ := Option.bind_eq_some_iff.1 (Option.some.inj hmembers)
      obtain rfl := Option.some.inj hrest
      refine ⟨by simp, ?_⟩
      have hvalues : queryValues ["contract_generation", "from_sequence", "to_sequence"]
          [(lit "contract_generation", text), (lit "from_sequence", first)] =
            .ok [(lit "contract_generation", text), (lit "from_sequence", first)] := rfl
      exact exportEvidence_ok hvalues (required_lookup rfl (hint _ _ hfirst)) rfl
    | some stop =>
      obtain ⟨first, hfirst, hrest⟩ := Option.bind_eq_some_iff.1 (Option.some.inj hmembers)
      obtain ⟨second, hsecond, hrest⟩ := Option.bind_eq_some_iff.1 hrest
      obtain rfl := Option.some.inj hrest
      refine ⟨by simp, ?_⟩
      have hvalues : queryValues ["contract_generation", "from_sequence", "to_sequence"]
          [(lit "contract_generation", text), (lit "from_sequence", first),
            (lit "to_sequence", second)] = .ok [(lit "contract_generation", text),
              (lit "from_sequence", first), (lit "to_sequence", second)] := rfl
      exact exportEvidence_ok hvalues (required_lookup rfl (hint _ _ hfirst))
        (integer_lookup rfl (hint _ _ hsecond))

end Plane.Surface

/-! ## Both clients -/

namespace Client.VerifiedConnection

open Inquiry (written querySuffix quoted)

theorem asked_eq (address : Str) (generation : ℤ) (rest : Values) :
    asked address generation rest =
      (querySuffix generation (some (some rest))).map (address ++ ·) := by
  unfold asked querySuffix
  cases written generation with
  | none => rfl
  | some text =>
    show (urlencode _).bind _ = Option.map _ ((urlencode _).bind _)
    cases urlencode ((lit "contract_generation", text) :: rest) <;> rfl

/-- A number of a query is written behind the generation, or before it. -/
theorem asked_number (address name : Str) (generation start : ℤ) :
    ((written start).bind fun first => asked address generation [(name, first)]) =
      (querySuffix generation (some ((written start).bind fun first =>
        some [(name, first)]))).map (address ++ ·) := by
  cases hstart : written start with
  | none => cases hgeneration : written generation <;> simp [querySuffix, hgeneration]
  | some first => exact asked_eq _ _ _

theorem asked_numbers (address name other : Str) (generation start stop : ℤ) :
    ((written start).bind fun first => (written stop).bind fun second =>
        asked address generation [(name, first), (other, second)]) =
      (querySuffix generation (some ((written start).bind fun first =>
        (written stop).bind fun second =>
          some [(name, first), (other, second)]))).map (address ++ ·) := by
  cases hstart : written start with
  | none => cases hgeneration : written generation <;> simp [querySuffix, hgeneration]
  | some first =>
    cases hstop : written stop with
    | none => cases hgeneration : written generation <;> simp [querySuffix, hgeneration]
    | some second => exact asked_eq _ _ _

theorem target_unnamed {generation : ℤ} (inquiry : Inquiry) {path : Str}
    (h : inquiry.parameters = []) (hpath : inquiry.operation.target [] = some path) :
    inquiry.target generation = (querySuffix generation inquiry.members).map (path ++ ·) := by
  unfold Inquiry.target
  rw [h]
  show (inquiry.operation.target []).bind _ = _
  rw [hpath]
  cases querySuffix generation inquiry.members <;> rfl

theorem target_named {generation : ℤ} (inquiry : Inquiry) {name text before after : Str}
    (h : inquiry.parameters = [(name, text)])
    (hpath : ∀ q, inquiry.operation.target [(name, q)] = some (before ++ q ++ after)) :
    inquiry.target generation = (quote text).bind fun q =>
      (querySuffix generation inquiry.members).map ((before ++ q ++ after) ++ ·) := by
  unfold Inquiry.target
  rw [h]
  cases hq : quote text with
  | none =>
    show (quoted [(name, text)]).bind _ = _
    unfold quoted
    rw [List.mapM_cons, hq]
    rfl
  | some q =>
    have hquoted : quoted [(name, text)] = some [(name, q)] := by
      unfold quoted
      rw [List.mapM_cons, hq]
      rfl
    rw [hquoted]
    show (inquiry.operation.target [(name, q)]).bind _ = (querySuffix _ _).map _
    rw [hpath]
    cases querySuffix generation inquiry.members <;> rfl

/-- What a template writes around its one value. -/
theorem target_around (q : Str) :
    Operation.readDecision.target [(lit "decision_ref", q)] = some (lit "/decisions/" ++ q ++ []) ∧
      Operation.readApproval.target [(lit "approval_ref", q)] =
        some (lit "/approvals/" ++ q ++ []) ∧
      Operation.resolveApproval.target [(lit "approval_ref", q)] =
        some (lit "/approvals/" ++ q ++ lit "/resolution") ∧
      Operation.readEvidence.target [(lit "scope", q)] =
        some (lit "/scopes/" ++ q ++ lit "/evidence") ∧
      Operation.exportEvidence.target [(lit "scope", q)] =
        some (lit "/scopes/" ++ q ++ lit "/evidence/export") :=
  ⟨rfl, rfl, rfl, rfl, rfl⟩

/-- The two clients write one target. -/
theorem target_eq (generation : ℤ) (inquiry : Inquiry) :
    target generation inquiry = inquiry.target generation := by
  cases inquiry with
  | readStatus | readWhoami | askDecision => rfl
  | readPolicyStatus =>
    have hpath : Operation.readPolicyStatus.target [] = some (lit "/policy/status") := rfl
    rw [target_unnamed .readPolicyStatus rfl hpath, target, asked_eq]
    rfl
  | resolveApproval ref =>
    rw [target_named (.resolveApproval ref) rfl fun q => (target_around q).2.2.1, target]
    cases quote ref with
    | none => rfl
    | some q =>
      show some _ = some (_ ++ [])
      rw [List.append_nil]
      rfl
  | readDecision scope ref =>
    rw [target_named (.readDecision scope ref) rfl fun q => (target_around q).1, target]
    cases quote ref with
    | none => rfl
    | some q =>
      show asked _ _ _ = Option.map _ _
      rw [asked_eq, List.append_nil]
      rfl
  | readApproval scope ref =>
    rw [target_named (.readApproval scope ref) rfl fun q => (target_around q).2.1, target]
    cases quote ref with
    | none => rfl
    | some q =>
      show asked _ _ _ = Option.map _ _
      rw [asked_eq, List.append_nil]
      rfl
  | readEvidence scope start size =>
    rw [target_named (.readEvidence scope start size) rfl fun q => (target_around q).2.2.2.1,
      target, Inquiry.members]
    cases quote scope with
    | none => rfl
    | some q => exact asked_numbers _ _ _ _ _ _
  | exportEvidence scope start stop =>
    rw [target_named (.exportEvidence scope start stop) rfl fun q => (target_around q).2.2.2.2]
    cases stop with
    | none =>
      rw [target, Inquiry.members]
      cases quote scope with
      | none => rfl
      | some q => exact asked_number _ _ _ _
    | some stop =>
      rw [target, Inquiry.members]
      cases quote scope with
      | none => rfl
      | some q => exact asked_numbers _ _ _ _ _ _

end Client.VerifiedConnection

open Plane.Surface
open Client (Inquiry)

/-- The reference library reads the numbers it writes. -/
theorem readInt_intText (n : ℤ) : readInt (intText n) = some n := by
  have hread : ∀ m : ℕ, readDecimal (decimal m) = some m := by
    intro m
    obtain ⟨hne, hdigits, hvalue, -⟩ := decimal_spec m
    rw [readDecimal, if_pos ⟨hne, List.all_eq_true.2 hdigits⟩]
    exact congrArg some hvalue
  cases n with
  | negSucc m =>
    rw [intText, readInt, hread]
    rfl
  | ofNat m =>
    obtain ⟨hne, hdigits, -⟩ := decimal_spec m
    have := hread m
    show readInt (decimal m) = _
    cases hd : decimal m with
    | nil => exact absurd hd hne
    | cons c digits =>
      have hc : isDigit c = true := hdigits c (by rw [hd]; exact List.mem_cons_self)
      rw [hd] at this
      unfold readInt
      split
      · rename_i heq
        rw [(List.cons.inj heq).1] at hc
        exact absurd hc (by decide)
      · rename_i heq
        rw [(List.cons.inj heq).1] at hc
        exact absurd hc (by decide)
      · rw [this]
        rfl

end SayFirst
