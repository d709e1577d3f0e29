import ScriptFeatures.Proofs.Json.Reading.Scalars

/-!
Lists along a parse tree. The elements of a list are read one after the other,
each where the shape of its place is asked for. A list may stand for a list, a
tuple or a record, or be ignored, and the cases differ in the frame that keeps
what has been read (`Reader.leads_items`).
-/

namespace ScriptFeatures.Json.Reader

open ScriptFeatures.Decimal ParseTree

variable {limit : Option Nat} {stack : List Frame} {a : Await} {shape : Shape} {st : State}
  {Q : State → Prop}

/-! ### Lists -/

theorem exists_tokens_eq {x : ParseTree} (hx : x.Lexical) :
    ∃ c cs more, x.tokens = (c :: cs) :: more ∧ isSpace c = false := by
  cases hx with
  | null => exact ⟨_, _, _, rfl, rfl⟩
  | bool b => cases b <;> exact ⟨_, _, _, rfl, rfl⟩
  | number h =>
    obtain ⟨c, cs, rfl, hc, -⟩ := NumberScan.scans_of_isNumber h true
    refine ⟨c, cs, [], rfl, ?_⟩
    rcases hc with rfl | hdigit
    · rfl
    · rw [Bool.eq_false_iff]
      intro hspace
      rw [isSpace_eq_true, spaces] at hspace
      simp only [List.mem_cons, List.not_mem_nil, or_false] at hspace
      rcases hspace with rfl | rfl | rfl | rfl <;> contradiction
  | string h =>
    obtain ⟨body, rfl, -⟩ := StringScan.scans_of_isString h true
    exact ⟨_, _, _, rfl, rfl⟩
  | array hitems =>
    obtain ⟨more, hmore⟩ := exists_enclosed_eq '[' ']' _
    exact ⟨'[', [], more, hmore, rfl⟩
  | object hnames hvalues =>
    obtain ⟨more, hmore⟩ := exists_enclosed_eq '\x7b' '\x7d' _
    exact ⟨'\x7b', [], more, hmore, rfl⟩

theorem leads_afterRowComma {x : ParseTree} (hx : x.Lexical) (frame : Frame) :
    Leads limit x.tokens ⟨frame :: stack, .await .afterRowComma⟩ Q := by
  obtain ⟨c, cs, more, htokens, hspace⟩ := exists_tokens_eq hx
  rw [htokens]
  intro text htext cs' v _ hread
  cases htext with
  | cons _ _ _ =>
    rw [List.append_assoc, List.append_assoc, List.cons_append] at hread
    obtain ⟨st', hstep, -⟩ := step_of_outcome hread
    simp [step, settled, Await.step, hspace] at hstep

/-- A list, with a frame that keeps what has been read of it, the shapes of its
elements and what may come behind them. -/
theorem leads_items {items : List ParseTree} (F : List ParseTree → Frame → Prop)
    (element : ℕ → Shape) (ending : ℕ → Await) (h : Takes shape a)
    (hlexical : ∀ x ∈ items, x.Lexical)
    (ih : ∀ x ∈ items, ∀ shape stack a, Takes shape a →
      Leads limit x.tokens ⟨stack, .await a⟩ (Completes stack shape x))
    (hopen : ∀ st', openList limit stack shape = .ok st' →
      ∃ frame, F [] frame ∧ st' = ⟨frame :: stack, .await (.element (element 0) true)⟩)
    (hending : ∀ k, ending k = .separator (element k) ∨ ending k = .rowEnd)
    (hitem : ∀ xs x frame w, F xs frame → Reads (element xs.length) x w →
      ∃ frame', F (xs ++ [x]) frame' ∧
        complete (frame :: stack) w = ⟨frame' :: stack, .await (ending (xs.length + 1))⟩)
    (hclose : ∀ frame st', F items frame → close (frame :: stack) = .ok st' →
      Completes stack shape (.array items) st') :
    Leads limit (ParseTree.array items).tokens ⟨stack, .await a⟩
      (Completes stack shape (.array items)) := by
  -- a comma behind the last place of a list is refused with the next value
  let next (xs : List ParseTree) (st : State) : Prop := ∃ frame,
    F xs frame ∧ st = ⟨frame :: stack, .await (.element (element xs.length) xs.isEmpty)⟩ ∨
      st = ⟨frame :: stack, .await .afterRowComma⟩
  let after (xs : List ParseTree) (st : State) : Prop := ∃ frame,
    F xs frame ∧ st = ⟨frame :: stack, .await (ending xs.length)⟩
  rw [tokens, ParseTree.itemsTokens_eq_map]
  refine leads_enclosed next after (.inl rfl) ?_ (fun _ => Completes.between) ?_ ?_ ?_ ?_ ?_
  · rintro xs st' ⟨frame, ⟨-, rfl⟩ | rfl⟩ <;> exact .await _ _
  · intro st' hstep
    rw [h.step_eq rfl (by decide)] at hstep
    obtain ⟨frame, hframe, rfl⟩ := hopen st' hstep
    exact ⟨frame, .inl ⟨hframe, rfl⟩⟩
  · rintro xs x ys hitems st' ⟨frame, ⟨hframe, rfl⟩ | rfl⟩
    · refine (ih x (by simp [hitems]) _ _ _ (.element xs.isEmpty)).mono ?_
      rintro _ ⟨w, hw, rfl⟩
      obtain ⟨frame', hframe', hcomplete⟩ := hitem xs x frame w hframe hw
      refine ⟨frame', hframe', ?_⟩
      rw [hcomplete, List.length_append, List.length_singleton]
    · exact leads_afterRowComma (hlexical x (by simp [hitems])) frame
  · rintro xs st' st'' hxs ⟨frame, hframe, rfl⟩ hstep
    rw [← List.isEmpty_eq_false_iff] at hxs
    rcases hending xs.length with hend | hend
    · rw [hend] at hstep
      refine ⟨frame, .inl ⟨hframe, ?_⟩⟩
      rw [hxs]
      exact (Except.ok.inj hstep).symm
    · rw [hend] at hstep
      exact ⟨frame, .inr (Except.ok.inj hstep).symm⟩
  · rintro rfl st' st'' ⟨frame, ⟨hframe, rfl⟩ | rfl⟩ hstep
    · exact hclose frame st'' hframe hstep
    · contradiction
  · rintro hne st' st'' ⟨frame, hframe, rfl⟩ hstep
    refine hclose frame st'' hframe ?_
    rcases hending items.length with hend | hend <;> rwa [hend] at hstep

section

variable {items : List ParseTree} (h : Takes shape a) (hlexical : ∀ x ∈ items, x.Lexical)
  (ih : ∀ x ∈ items, ∀ shape stack a, Takes shape a →
    Leads limit x.tokens ⟨stack, .await a⟩ (Completes stack shape x))

include h hlexical ih in
theorem leads_list {element : Shape} (helement : shape.element? = some element) :
    Leads limit (ParseTree.array items).tokens ⟨stack, .await a⟩
      (Completes stack shape (.array items)) := by
  refine leads_items (fun xs frame => ∃ vs, List.Forall₂ (Reads element) xs vs ∧
      frame = .list element vs.reverse) (fun _ => element) (fun _ => .separator element) h hlexical
    ih ?_ (fun _ => .inl rfl) ?_ ?_
  · intro st' hopen
    refine ⟨.list element [], ⟨[], .nil, rfl⟩, ?_⟩
    cases shape with
    | any | list _ =>
      cases helement
      exact enter_eq_ok hopen
    | ignored | string | natural _ | tuple _ | record _ _ _ => contradiction
  · rintro xs x _ w ⟨vs, hvs, rfl⟩ hw
    refine ⟨_, ⟨vs ++ [w], List.rel_append hvs (.cons hw .nil), rfl⟩, ?_⟩
    rw [List.reverse_append]
    rfl
  · rintro _ st' ⟨vs, hvs, rfl⟩ hclose
    refine ⟨.array vs, .list helement hvs.length_eq ?_, ?_⟩
    · exact fun p hp => (List.forall₂_iff_zip.mp hvs).2 hp
    · rw [close, Frame.close, List.reverse_reverse] at hclose
      exact (Except.ok.inj hclose).symm

include hlexical ih in
theorem leads_ignoredList (h : Takes .ignored a) :
    Leads limit (ParseTree.array items).tokens ⟨stack, .await a⟩
      (Completes stack .ignored (.array items)) := by
  refine leads_items (fun _ frame => frame = .ignoredList) (fun _ => .ignored)
    (fun _ => .separator .ignored) h hlexical ih ?_ (fun _ => .inl rfl) ?_ ?_
  · intro st' hopen
    exact ⟨.ignoredList, rfl, (Except.ok.inj hopen).symm⟩
  · rintro xs x _ w rfl -
    exact ⟨.ignoredList, rfl, rfl⟩
  · rintro _ st' rfl hclose
    exact ⟨.null, .ignored _, (Except.ok.inj hclose).symm⟩

def rowEnding : List Shape → Await
  | [] => .rowEnd
  | next :: _ => .separator next

theorem rowEnding_drop (shapes : List Shape) (k : ℕ) :
    rowEnding (shapes.drop k) = .separator ((shapes.drop k).headD .any) ∨
      rowEnding (shapes.drop k) = .rowEnd := by
  cases shapes.drop k with
  | nil => exact .inr rfl
  | cons next more => exact .inl rfl

include hlexical ih in
theorem leads_tuple {places : List Shape} (h : Takes (.tuple places) a) :
    Leads limit (ParseTree.array items).tokens ⟨stack, .await a⟩
      (Completes stack (.tuple places) (.array items)) := by
  refine leads_items (fun xs frame => ∃ read,
      frame = .tuple places.length (places.drop xs.length) read)
    (fun k => (places.drop k).headD .any) (fun k => rowEnding (places.drop k)) h hlexical ih ?_
    (rowEnding_drop places) ?_ ?_
  · intro st' hopen
    exact ⟨_, ⟨[], rfl⟩, enter_eq_ok hopen⟩
  · rintro xs x _ w ⟨read, rfl⟩ -
    refine ⟨_, ⟨w :: read, rfl⟩, ?_⟩
    rw [complete, List.tail_drop, List.length_append, List.length_singleton]
    cases places.drop (xs.length + 1) <;> rfl
  · rintro _ st' ⟨read, rfl⟩ hclose
    rw [close, Frame.close] at hclose
    split_ifs at hclose
    · exact ⟨_, .tuple _ _ _, (Except.ok.inj hclose).symm⟩
    · contradiction

/-! ### Records as lists -/

variable {name : String} {required optional : List (String × Shape)}

/-- The values of the first places by their names, latest first. -/
def rowMembers (places : List (String × Shape)) (vs : List Value) : Members :=
  (List.zipWith (fun place v => (place.1, v)) places vs).reverse

/-- Values for the elements of a list, as far as there are places. -/
inductive ReadsPlaces : List (String × Shape) → List ParseTree → List Value → Prop
  | nil (places : List (String × Shape)) : ReadsPlaces places [] []
  | full (xs : List ParseTree) (vs : List Value) : ReadsPlaces [] xs vs
  | cons {place : String × Shape} {places : List (String × Shape)} {x : ParseTree}
      {xs : List ParseTree} {v : Value} {vs : List Value} (h : Reads place.2 x v)
      (hrest : ReadsPlaces places xs vs) : ReadsPlaces (place :: places) (x :: xs) (v :: vs)

namespace ReadsPlaces

variable {places : List (String × Shape)} {xs : List ParseTree} {vs : List Value}

theorem append (h : ReadsPlaces places xs vs) {x : ParseTree} {w : Value}
    (hw : ∀ place ∈ (places.drop xs.length).head?, Reads place.2 x w) :
    ReadsPlaces places (xs ++ [x]) (vs ++ [w]) := by
  induction h with
  | nil places =>
    cases places with
    | nil => exact .full _ _
    | cons place places => exact .cons (hw place rfl) (.nil places)
  | full xs vs => exact .full _ _
  | cons h _ ih => exact .cons h (ih hw)

/-- A value that is read where places are left goes with the name of the
next one. -/
theorem rowMembers_append (h : ReadsPlaces places xs vs) (w : Value) :
    rowMembers places (vs ++ [w]) =
      match places.drop xs.length with
      | [] => rowMembers places vs
      | place :: _ => (place.1, w) :: rowMembers places vs := by
  induction h with
  | nil places => cases places <;> simp [rowMembers]
  | full xs vs => simp [rowMembers]
  | @cons place places x xs v vs _ _ ih =>
    have hcons (vs : List Value) : rowMembers (place :: places) (v :: vs) =
        rowMembers places vs ++ [(place.1, v)] := by
      simp [rowMembers]
    rw [List.cons_append, hcons, hcons, ih, List.length_cons, List.drop_succ_cons]
    cases places.drop xs.length <;> rfl

/-- A name stands for a place, the element at it and its value, or for no
value. -/
theorem get?_cases (h : ReadsPlaces places xs vs) (hnames : (places.map Prod.fst).Nodup)
    (key : String) :
    (rowMembers places vs).get? key = none ∨
      ∃ s y w, places.lookup key = some s ∧ ((places.map Prod.fst).zip xs).lookup key = some y ∧
        (rowMembers places vs).get? key = some w ∧ Reads s y w := by
  induction h with
  | nil places => exact .inl (by simp [rowMembers, Members.get?])
  | full xs vs => exact .inl rfl
  | @cons place places x xs v vs hreads _ ih =>
    rw [List.map_cons, List.nodup_cons] at hnames
    have hget : (rowMembers (place :: places) (v :: vs)).get? key =
        ((rowMembers places vs).get? key).or ([(place.1, v)].lookup key) := by
      simp [rowMembers, Members.get?, List.lookup_append]
    rw [hget, List.map_cons, List.zip_cons_cons, List.lookup_cons, List.lookup_cons,
      List.lookup_cons]
    by_cases hkey : key = place.1
    · subst hkey
      -- the name comes only once
      have hnone : (rowMembers places vs).get? place.1 = none := by
        refine (ih hnames.2).resolve_right ?_
        rintro ⟨s, y, w, hlookup, -⟩
        obtain ⟨before, after, hplaces, -⟩ := List.lookup_eq_some_iff.mp hlookup
        refine hnames.1 (List.mem_map.mpr ⟨(place.1, s), ?_, rfl⟩)
        rw [hplaces]
        exact List.mem_append_right _ List.mem_cons_self
      rw [hnone, beq_self_eq_true]
      exact .inr ⟨place.2, x, v, rfl, rfl, rfl, hreads⟩
    · have hbeq : (key == place.1) = false := beq_eq_false_iff_ne.mpr hkey
      rw [hbeq, List.lookup_nil, Option.or_none]
      exact ih hnames.2

end ReadsPlaces

include hlexical ih in
/-- A record that is written as the list of its members. -/
theorem leads_row (h : Takes (.record name required optional) a) :
    Leads limit (ParseTree.array items).tokens ⟨stack, .await a⟩
      (Completes stack (.record name required optional) (.array items)) := by
  let places := required ++ optional
  have hshapes (k : ℕ) : (places.map Prod.snd).drop k = (places.drop k).map Prod.snd :=
    List.map_drop.symm
  refine leads_items (fun xs frame => ∃ vs, ReadsPlaces places xs vs ∧
      frame = .row name required optional (places.drop xs.length) (rowMembers places vs))
    (fun k => ((places.map Prod.snd).drop k).headD .any)
    (fun k => rowEnding ((places.map Prod.snd).drop k)) h hlexical ih ?_ (rowEnding_drop _) ?_ ?_
  · intro st' hopen
    refine ⟨_, ⟨[], .nil places, rfl⟩, ?_⟩
    have hempty : rowMembers places [] = [] := by simp [rowMembers]
    rw [hempty]
    exact enter_eq_ok hopen
  · rintro xs x _ w ⟨vs, hvs, rfl⟩ hw
    refine ⟨_, ⟨vs ++ [w], hvs.append fun place hplace => ?_, rfl⟩, ?_⟩
    · rw [hshapes, List.headD_eq_head?_getD, List.head?_map, hplace] at hw
      exact hw
    · simp only [complete, List.tail_drop, hvs.rowMembers_append, hshapes, List.length_append,
        List.length_singleton]
      cases places.drop xs.length <;> cases places.drop (xs.length + 1) <;> rfl
  · rintro _ st' ⟨vs, hvs, rfl⟩ hclose
    rw [close, Frame.close] at hclose
    split_ifs at hclose
    · contradiction
    · cases hassemble : assemble required optional (rowMembers places vs) with
      | error e =>
        rw [hassemble] at hclose
        contradiction
      | ok v =>
        rw [hassemble] at hclose
        refine ⟨v, .record hassemble ?_ ?_, (Except.ok.inj hclose).symm⟩
        · intro hnames key hkey
          rcases hvs.get?_cases hnames key with hnone | ⟨s, y, w, -, hy, -⟩
          · rw [hnone] at hkey
            contradiction
          · exact Option.isSome_iff_exists.mpr ⟨y, hy⟩
        · intro hnames key s y w hs hy hw
          rcases hvs.get?_cases hnames key with hnone | ⟨s', y', w', hs', hy', hw', hreads⟩
          · rw [hnone] at hw
            contradiction
          · rw [hs'] at hs
            rw [hw'] at hw
            change ((places.map Prod.fst).zip items).lookup key = some y at hy
            rw [hy'] at hy
            cases hs
            cases hy
            cases hw
            exact hreads

end

end ScriptFeatures.Json.Reader
