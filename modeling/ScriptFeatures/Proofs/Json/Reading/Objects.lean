import ScriptFeatures.Proofs.Json.Reading.Lists

/-!
Reading along a parse tree. The members of an object are read one after the
other, too (`Reader.leads_members`). So a text of the tokens of a parse tree that
is read to its end, however it goes on, is read as a value of the parse tree at
its front (`Reader.leads_tokens`). Nothing is assumed of the shape that is asked
for: a parse tree that does not fit is refused, and then the text is not read.
-/

namespace ScriptFeatures.Json.Reader

open ScriptFeatures.Decimal ParseTree

variable {limit : Option Nat} {stack : List Frame} {a : Await} {shape : Shape} {st : State}
  {Q : State → Prop}

/-! ### Objects -/

theorem leads_member {first ignored : Bool} {name : Token} (hname : IsString name)
    {value : List Token}
    (h : ∀ s st', scanAll (StringScan.step ignored) .start name.tail.dropLast = some s →
      s.stage = .plain → named stack s.text = .ok st' → ∃ stack' shape,
        st' = ⟨stack', .await (.colon shape)⟩ ∧
          Leads limit value ⟨stack', .await (.value shape)⟩ Q) :
    Leads limit (memberTokens name value) ⟨stack, .await (.name first ignored)⟩ Q := by
  refine .cons (P := fun st' => ∃ stack' shape, st' = ⟨stack', .await (.colon shape)⟩ ∧
    Leads limit value ⟨stack', .await (.value shape)⟩ Q) ?_ ?_ ?_
  · rintro st' ⟨stack', shape, rfl, -⟩
    exact .await _ _
  · intro cs v hread
    obtain ⟨s, hscan, hplain, hread⟩ := exists_of_quoted (fun s => .name ignored s) ignored rfl
      (fun s c => ⟨fun s' hs => by simp only [step, hs], fun e hs => by simp only [step, hs]⟩)
      hname hread
    have hquote : s.step ignored '"' = .ok none := by
      rw [StringScan.step, hplain]
      rfl
    obtain ⟨st', hstep, hread⟩ := step_of_outcome hread
    simp only [step, hquote] at hstep
    exact ⟨st', h s st' hscan hplain hstep, hread⟩
  · rintro st' ⟨stack', shape, rfl, hvalue⟩
    refine .mark (P := (· = ⟨stack', .await (.value shape)⟩)) ?_ ?_ ?_
    · rintro st'' rfl
      exact .await _ _
    · exact fun st'' hstep => (Except.ok.inj hstep).symm
    · rintro st'' rfl
      exact hvalue

section

variable {members : List (Token × ParseTree)} {name : String}
  {required optional : List (String × Shape)} (hnames : ∀ m ∈ members, IsString m.1)
  (ih : ∀ m ∈ members, ∀ shape stack a, Takes shape a →
    Leads limit m.2.tokens ⟨stack, .await a⟩ (Completes stack shape m.2))

include hnames ih in
/-- An object, with a frame that keeps what has been read of it. -/
theorem leads_members (F : List (Token × ParseTree) → Frame → Prop) (ignored : Bool)
    (h : Takes shape a)
    (hopen : ∀ st', openObject limit stack shape = .ok st' →
      ∃ frame, F [] frame ∧ st' = ⟨frame :: stack, .await (.name true ignored)⟩)
    (hmember : ∀ xs m frame s st', F xs frame →
      scanAll (StringScan.step ignored) .start m.1.tail.dropLast = some s → s.stage = .plain →
      named (frame :: stack) s.text = .ok st' →
      ∃ frame' shape, st' = ⟨frame' :: stack, .await (.colon shape)⟩ ∧
        ∀ w, Reads shape m.2 w → ∃ frame'', F (xs ++ [m]) frame'' ∧
          complete (frame' :: stack) w = ⟨frame'' :: stack, .await (.memberEnd ignored)⟩)
    (hclose : ∀ frame st', F members frame → close (frame :: stack) = .ok st' →
      Completes stack shape (.object members) st') :
    Leads limit (ParseTree.object members).tokens ⟨stack, .await a⟩
      (Completes stack shape (.object members)) := by
  let next (xs : List (Token × ParseTree)) (st : State) : Prop := ∃ frame,
    F xs frame ∧ st = ⟨frame :: stack, .await (.name xs.isEmpty ignored)⟩
  let after (xs : List (Token × ParseTree)) (st : State) : Prop := ∃ frame,
    F xs frame ∧ st = ⟨frame :: stack, .await (.memberEnd ignored)⟩
  rw [tokens, ParseTree.membersTokens_eq_map]
  refine leads_enclosed next after (.inr rfl) ?_ (fun _ => Completes.between) ?_ ?_ ?_ ?_ ?_
  · rintro xs st' ⟨frame, -, rfl⟩
    exact .await _ _
  · intro st' hstep
    rw [h.step_eq rfl (by decide)] at hstep
    obtain ⟨frame, hframe, rfl⟩ := hopen st' hstep
    exact ⟨frame, hframe, rfl⟩
  · rintro xs m ys hmembers st' ⟨frame, hframe, rfl⟩
    have hm : m ∈ members := by simp [hmembers]
    refine leads_member (hnames m hm) fun s st' hscan hplain hnamed => ?_
    obtain ⟨frame', shape', rfl, hvalue⟩ := hmember xs m frame s st' hframe hscan hplain hnamed
    refine ⟨_, shape', rfl, (ih m hm shape' _ _ .value).mono ?_⟩
    rintro _ ⟨w, hw, rfl⟩
    obtain ⟨frame'', hframe'', hcomplete⟩ := hvalue w hw
    exact ⟨frame'', hframe'', hcomplete⟩
  · rintro xs st' st'' hxs ⟨frame, hframe, rfl⟩ hstep
    rw [← List.isEmpty_eq_false_iff] at hxs
    refine ⟨frame, hframe, ?_⟩
    rw [hxs]
    exact (Except.ok.inj hstep).symm
  · rintro rfl st' st'' ⟨frame, hframe, rfl⟩ hstep
    exact hclose frame st'' hframe hstep
  · rintro - st' st'' ⟨frame, hframe, rfl⟩ hstep
    exact hclose frame st'' hframe hstep

include hnames ih in
theorem leads_object (h : Takes .any a) :
    Leads limit (ParseTree.object members).tokens ⟨stack, .await a⟩
      (Completes stack .any (.object members)) := by
  refine leads_members hnames ih (fun xs frame => ∃ entries : Members, ∃ name,
    List.Forall₂ ReadsMember xs entries ∧
      frame = .object (entries.foldl (fun read e => Members.put read e.1 e.2) []) name) false h
    ?_ ?_ ?_
  · intro st' hopen
    exact ⟨_, ⟨[], "", .nil, rfl⟩, enter_eq_ok hopen⟩
  · rintro xs m _ s st' ⟨entries, name, hentries, rfl⟩ hscan hplain hnamed
    refine ⟨_, .any, (Except.ok.inj hnamed).symm, fun w hw => ?_⟩
    have hm : textOf? m.1 = some s.text := textOf?_of_scan hscan hplain
    refine ⟨_, ⟨entries ++ [(s.text, w)], s.text,
      List.rel_append hentries (.cons ⟨hm, hw⟩ .nil), rfl⟩, ?_⟩
    rw [List.foldl_append]
    rfl
  · rintro _ st' ⟨entries, name, hentries, rfl⟩ hclose
    refine ⟨_, .object hentries.length_eq ?_ ?_, (Except.ok.inj hclose).symm⟩
    · exact fun p hp => ((List.forall₂_iff_zip.mp hentries).2 hp).1
    · exact fun p hp => ((List.forall₂_iff_zip.mp hentries).2 hp).2

include hnames ih in
theorem leads_ignoredObject (h : Takes .ignored a) :
    Leads limit (ParseTree.object members).tokens ⟨stack, .await a⟩
      (Completes stack .ignored (.object members)) := by
  refine leads_members hnames ih (fun _ frame => frame = .ignoredObject) true h ?_ ?_ ?_
  · intro st' hopen
    exact ⟨.ignoredObject, rfl, (Except.ok.inj hopen).symm⟩
  · rintro xs m _ s st' rfl - - hnamed
    exact ⟨.ignoredObject, .ignored, (Except.ok.inj hnamed).symm, fun w _ =>
      ⟨.ignoredObject, rfl, rfl⟩⟩
  · rintro _ st' rfl hclose
    exact ⟨.null, .ignored _, (Except.ok.inj hclose).symm⟩

/-! ### Records as objects -/

/-- What has been read of a record: a place whose name has come has a value,
and no other name has one. -/
structure ReadsMembers (places : List (String × Shape)) (xs : List (Token × ParseTree))
    (read : Members) : Prop where
  filled {key : String} {s : Shape} (hs : places.lookup key = some s) :
    member? xs key = none ∧ read.get? key = none ∨
      ∃ y w, member? xs key = some y ∧ read.get? key = some w ∧ Reads s y w
  others {key : String} (hkey : places.lookup key = none) : read.get? key = none

namespace ReadsMembers

variable {places : List (String × Shape)} {xs : List (Token × ParseTree)} {read : Members}
  {m : Token × ParseTree} {key : String}

theorem member?_append (hm : textOf? m.1 = some name) (key : String) :
    member? (xs ++ [m]) key = (member? xs key).or (if key = name then some m.2 else none) := by
  rw [member?, List.find?_append, member?, List.find?_singleton, hm]
  by_cases hkey : key = name
  · cases xs.find? fun m => textOf? m.1 == some key <;> simp [hkey]
  · have hne : (some name == some key) = false := by simpa using Ne.symm hkey
    simp [hne, hkey]

theorem nil : ReadsMembers places [] [] where
  filled _ := .inl ⟨rfl, rfl⟩
  others _ := rfl

theorem get?_cons (read : Members) (w : Value) (key : String) :
    Members.get? ((name, w) :: read) key = if key = name then some w else read.get? key := by
  rw [Members.get?, List.lookup_cons]
  by_cases hkey : key = name
  · simp [hkey]
  · simp [hkey, beq_eq_false_iff_ne.mpr hkey, Members.get?]

theorem fill (h : ReadsMembers places xs read) (hm : textOf? m.1 = some name) {shape : Shape}
    (hshape : places.lookup name = some shape) (hfresh : read.get? name = none) {w : Value}
    (hw : Reads shape m.2 w) : ReadsMembers places (xs ++ [m]) ((name, w) :: read) where
  filled {key s} hs := by
    rw [member?_append hm, get?_cons]
    by_cases hkey : key = name
    · subst hkey
      rw [hshape, Option.some.injEq] at hs
      subst hs
      rcases h.filled hshape with ⟨hnone, -⟩ | ⟨y, w', -, hsome, -⟩
      · exact .inr ⟨m.2, w, by simp [hnone], by simp, hw⟩
      · rw [hfresh] at hsome
        contradiction
    · simpa [hkey] using h.filled hs
  others {key} hkey := by
    rw [get?_cons, if_neg, h.others hkey]
    rintro rfl
    rw [hshape] at hkey
    contradiction

/-- A member that has no place is passed over. -/
theorem skip (h : ReadsMembers places xs read) (hm : textOf? m.1 = some name)
    (hnone : places.lookup name = none) : ReadsMembers places (xs ++ [m]) read where
  filled {key s} hs := by
    have hkey : key ≠ name := by
      rintro rfl
      rw [hnone] at hs
      contradiction
    rw [member?_append hm, if_neg hkey, Option.or_none]
    exact h.filled hs
  others := h.others

end ReadsMembers

include hnames ih in
theorem leads_record (h : Takes (.record name required optional) a) :
    Leads limit (ParseTree.object members).tokens ⟨stack, .await a⟩
      (Completes stack (.record name required optional) (.object members)) := by
  refine leads_members hnames ih (fun xs frame => ∃ read,
    ReadsMembers (required ++ optional) xs read ∧ frame = .record required optional read none)
    false h ?_ ?_ ?_
  · intro st' hopen
    exact ⟨_, ⟨[], .nil, rfl⟩, enter_eq_ok hopen⟩
  · rintro xs m _ s st' ⟨read, hread, rfl⟩ hscan hplain hnamed
    have hm : textOf? m.1 = some s.text := textOf?_of_scan hscan hplain
    rw [named] at hnamed
    cases hlookup : (required ++ optional).lookup s.text with
    | none =>
      rw [hlookup] at hnamed
      refine ⟨_, .ignored, (Except.ok.inj hnamed).symm, fun w _ => ?_⟩
      exact ⟨_, ⟨read, hread.skip hm hlookup, rfl⟩, rfl⟩
    | some shape =>
      simp only [hlookup] at hnamed
      split at hnamed
      · contradiction
      · next hfresh =>
        rw [Option.not_isSome_iff_eq_none] at hfresh
        refine ⟨_, shape, (Except.ok.inj hnamed).symm, fun w hw => ?_⟩
        exact ⟨_, ⟨(s.text, w) :: read, hread.fill hm hlookup hfresh hw, rfl⟩, rfl⟩
  · rintro _ st' ⟨read, hread, rfl⟩ hclose
    rw [close, Frame.close] at hclose
    cases hassemble : assemble required optional read with
    | error e =>
      rw [hassemble] at hclose
      contradiction
    | ok v =>
      rw [hassemble] at hclose
      refine ⟨v, .record hassemble (fun _ key hkey => ?_) (fun _ key s y w hs hy hw => ?_),
        (Except.ok.inj hclose).symm⟩
      · cases hs : (required ++ optional).lookup key with
        | none =>
          rw [hread.others hs] at hkey
          contradiction
        | some s =>
          rcases hread.filled hs with ⟨-, hnone⟩ | ⟨y, -, hy, -⟩
          · rw [hnone] at hkey
            contradiction
          · exact Option.isSome_iff_exists.mpr ⟨y, hy⟩
      · rcases hread.filled hs with ⟨-, hnone⟩ | ⟨y', w', hy', hw', hreads⟩
        · rw [hnone] at hw
          contradiction
        · change member? members key = some y at hy
          rw [hy'] at hy
          rw [hw'] at hw
          cases hy
          cases hw
          exact hreads

end

/-! ### Values -/

/-- A text of a parse tree is read as the parse tree is, or it is refused. -/
theorem leads_tokens {x : ParseTree} (hx : x.Lexical) : ∀ shape stack a, Takes shape a →
    Leads limit x.tokens ⟨stack, .await a⟩ (Completes stack shape x) := by
  induction hx with
  | null => exact fun shape stack a h => leads_null h
  | bool b => exact fun shape stack a h => leads_bool h b
  | number htoken => exact fun shape stack a h => leads_number h htoken
  | string htoken => exact fun shape stack a h => leads_string h htoken
  | array hitems ih =>
    intro shape stack a h
    cases shape with
    | any | list _ => exact leads_list h hitems ih rfl
    | ignored => exact leads_ignoredList hitems ih h
    | tuple places => exact leads_tuple hitems ih h
    | record name required optional => exact leads_row hitems ih h
    | string | natural _ => exact leads_of_error (h.step_eq rfl (by decide)) ']' _
  | object hnames _ ih =>
    intro shape stack a h
    cases shape with
    | any => exact leads_object hnames ih h
    | ignored => exact leads_ignoredObject hnames ih h
    | record name required optional => exact leads_record hnames ih h
    | string | natural _ | list _ | tuple _ => exact leads_of_error (h.step_eq rfl (by decide)) '\x7d' _

end ScriptFeatures.Json.Reader
