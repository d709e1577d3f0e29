import ScriptFeatures.Proofs.Json.Written

/-!
Values that are passed over. Where a value does not matter, any value that is
well formed may stand (`Reader.passes_ignored`): numbers with fractions and
exponents of any size, and strings with any escapes, which need not pair up.
-/

namespace ScriptFeatures.Json

open ScriptFeatures.Decimal

/-! ### Well-formed values -/

def IsWhole (cs : List Char) : Prop := cs = ['0'] ∨ ∃ c ds, cs = c :: ds ∧ c ≠ '0' ∧ Digits cs

def IsFraction (cs : List Char) : Prop := cs = [] ∨ ∃ ds, cs = '.' :: ds ∧ ds ≠ [] ∧ Digits ds

def IsExponent (cs : List Char) : Prop :=
  cs = [] ∨ ∃ mark sign ds, cs = mark :: sign ++ ds ∧ (mark = 'e' ∨ mark = 'E') ∧
    (sign = [] ∨ sign = ['+'] ∨ sign = ['-']) ∧ ds ≠ [] ∧ Digits ds

inductive IsNumber : Token → Prop
  | mk {sign whole fraction exponent : List Char} (hsign : sign = [] ∨ sign = ['-'])
      (hwhole : IsWhole whole) (hfraction : IsFraction fraction)
      (hexponent : IsExponent exponent) : IsNumber (sign ++ (whole ++ (fraction ++ exponent)))

def hexDigits : List Char :=
  ['0', '1', '2', '3', '4', '5', '6', '7', '8', '9', 'a', 'b', 'c', 'd', 'e', 'f',
    'A', 'B', 'C', 'D', 'E', 'F']

/-- What a string is made up of. -/
inductive IsUnit : List Char → Prop
  | plain {c : Char} (hcontrol : 0x20 ≤ c.toNat) (hquote : c ≠ '"') (hbackslash : c ≠ '\\') :
      IsUnit [c]
  | escape {c : Char} (hc : c ∈ ['"', '\\', '/', 'b', 'f', 'n', 'r', 't']) : IsUnit ['\\', c]
  | code {a b c d : Char} (ha : a ∈ hexDigits) (hb : b ∈ hexDigits) (hc : c ∈ hexDigits)
      (hd : d ∈ hexDigits) : IsUnit ['\\', 'u', a, b, c, d]

inductive IsString : Token → Prop
  | mk {units : List (List Char)} (hunits : ∀ unit ∈ units, IsUnit unit) :
      IsString ('"' :: units.flatten ++ ['"'])

/-- The tokens of a well-formed value. -/
inductive WellFormed : List Token → Prop
  | null : WellFormed [['n', 'u', 'l', 'l']]
  | bool (b : Bool) : WellFormed [wordText b]
  | number {token : Token} (h : IsNumber token) : WellFormed [token]
  | string {token : Token} (h : IsString token) : WellFormed [token]
  | array {items : List (List Token)} (hitems : ∀ item ∈ items, WellFormed item) :
      WellFormed (enclosed '[' ']' items)
  | object {members : List (Token × List Token)} (hnames : ∀ m ∈ members, IsString m.1)
      (hvalues : ∀ m ∈ members, WellFormed m.2) :
      WellFormed (enclosed '\x7b' '\x7d' (members.map fun m => memberTokens m.1 m.2))

/-! ### Numbers -/

namespace NumberScan

/-- A number whose value does not matter can be scanned up to some stage. -/
def Reaches (n : NumberScan) (cs : List Char) (stages : List Stage) : Prop :=
  ∃ n', scanAll (step true) n cs = some n' ∧ n'.stage ∈ stages

variable {n : NumberScan} {cs ds : List Char} {stages stages' : List Stage}

theorem Reaches.append (h : n.Reaches cs stages)
    (h' : ∀ n' : NumberScan, n'.stage ∈ stages → n'.Reaches ds stages') :
    n.Reaches (cs ++ ds) stages' := by
  obtain ⟨n', hscan, hstage⟩ := h
  obtain ⟨n'', hscan', hstage'⟩ := h' n' hstage
  exact ⟨n'', (scanAll_append hscan ds).trans hscan', hstage'⟩

theorem reaches_nil (h : n.stage ∈ stages) : n.Reaches [] stages := ⟨n, rfl, h⟩

theorem reaches_singleton {c : Char} (n' : NumberScan) (h : n.step true c = .ok (some n'))
    (hstage : n'.stage ∈ stages) : n.Reaches [c] stages :=
  ⟨n', scanAll_cons h [], hstage⟩

theorem reaches_digits
    (hstep : ∀ (n : NumberScan) (c : Char), n.stage ∈ stages → c.isDigit = true →
      n.Reaches [c] stages)
    (hn : n.stage ∈ stages) (hds : Digits ds) : n.Reaches ds stages := by
  induction ds generalizing n with
  | nil => exact reaches_nil hn
  | cons c ds ih =>
    refine Reaches.append (hstep n c hn (hds c List.mem_cons_self)) fun n' hn' => ?_
    exact ih hn' fun d hd => hds d (List.mem_cons_of_mem c hd)

theorem reaches_someDigits (hfirst : ∀ c, c.isDigit = true → n.Reaches [c] stages)
    (hstep : ∀ (n : NumberScan) (c : Char), n.stage ∈ stages → c.isDigit = true →
      n.Reaches [c] stages)
    (hnil : ds ≠ []) (hds : Digits ds) : n.Reaches ds stages := by
  cases ds with
  | nil => contradiction
  | cons c ds =>
    refine Reaches.append (hfirst c (hds c List.mem_cons_self)) fun n' hn' => ?_
    exact reaches_digits hstep hn' fun d hd => hds d (List.mem_cons_of_mem c hd)

/-! #### The whole part -/

def wholeStages : List Stage := [.whole, .droppedWhole]

theorem wholeDigit_stage (n : NumberScan) (c : Char) : (n.wholeDigit c).stage ∈ wholeStages := by
  rw [wholeDigit]
  split <;> simp [wholeStages]

theorem reaches_wholeDigit (n : NumberScan) (c : Char) (hn : n.stage ∈ wholeStages)
    (hc : c.isDigit = true) : n.Reaches [c] wholeStages := by
  simp only [wholeStages, List.mem_cons, List.not_mem_nil, or_false] at hn
  rcases hn with hstage | hstage
  · refine reaches_singleton (n.wholeDigit c) ?_ (wholeDigit_stage n c)
    simp [step, hstage, hc]
  · refine reaches_singleton { n with scale := n.scale + 1 } ?_ ?_
    · simp [step, hstage, hc]
    · simp [hstage, wholeStages]

def afterWholeStages : List Stage := .leadingZero :: wholeStages

theorem reaches_whole {sign whole : List Char} (hsign : sign = [] ∨ sign = ['-'])
    (hwhole : IsWhole whole) :
    ∃ c cs, sign ++ whole = c :: cs ∧ (c = '-' ∨ c.isDigit = true) ∧
      (start c).Reaches cs afterWholeStages := by
  have hsub (n : NumberScan) (cs : List Char) (h : n.Reaches cs wholeStages) :
      n.Reaches cs afterWholeStages := by
    obtain ⟨n', hscan, hstage⟩ := h
    exact ⟨n', hscan, List.mem_cons_of_mem _ hstage⟩
  rcases hwhole with rfl | ⟨d, ds, rfl, hd, hdigits⟩
  · rcases hsign with rfl | rfl
    · exact ⟨'0', [], rfl, .inr rfl, reaches_nil (by decide)⟩
    · exact ⟨'-', ['0'], rfl, .inl rfl, reaches_singleton _ rfl (by decide)⟩
  · have hdigit : d.isDigit = true := hdigits d List.mem_cons_self
    have hrest : Digits ds := fun c hc => hdigits c (List.mem_cons_of_mem d hc)
    rcases hsign with rfl | rfl
    · refine ⟨d, ds, rfl, .inr hdigit, hsub _ _ (reaches_digits reaches_wholeDigit ?_ hrest)⟩
      have hminus : d ≠ '-' := by
        rintro rfl
        contradiction
      simp [start, hminus, hd, wholeStages]
    · refine ⟨'-', d :: ds, rfl, .inl rfl, hsub _ _ ?_⟩
      have hfirst : (start '-').Reaches [d] wholeStages := by
        refine reaches_singleton ((start '-').wholeDigit d) ?_ (wholeDigit_stage _ d)
        simp [step, start, hd, hdigit]
      exact hfirst.append fun n' hn' => reaches_digits reaches_wholeDigit hn' hrest

/-! #### The fraction -/

def fractionStages : List Stage := [.fraction, .droppedFraction]

theorem fractionDigit_stage (n : NumberScan) (c : Char) :
    (n.fractionDigit c).stage ∈ fractionStages := by
  rw [fractionDigit]
  split <;> simp [fractionStages]

theorem reaches_fractionDigit (n : NumberScan) (c : Char) (hn : n.stage ∈ fractionStages)
    (hc : c.isDigit = true) : n.Reaches [c] fractionStages := by
  simp only [fractionStages, List.mem_cons, List.not_mem_nil, or_false] at hn
  rcases hn with hstage | hstage
  · refine reaches_singleton (n.fractionDigit c) ?_ (fractionDigit_stage n c)
    simp [step, hstage, hc]
  · refine reaches_singleton n ?_ ?_
    · simp [step, hstage, hc]
    · simp [hstage, fractionStages]

def afterFractionStages : List Stage := afterWholeStages ++ fractionStages

theorem reaches_fraction (hn : n.stage ∈ afterWholeStages) {fraction : List Char}
    (hfraction : IsFraction fraction) : n.Reaches fraction afterFractionStages := by
  rcases hfraction with rfl | ⟨ds, rfl, hnil, hds⟩
  · exact reaches_nil (List.mem_append_left _ hn)
  · have hpoint : n.Reaches ['.'] [.point] := by
      refine reaches_singleton { n with stage := .point } ?_ (by simp)
      simp only [afterWholeStages, wholeStages, List.mem_cons, List.not_mem_nil, or_false] at hn
      rcases hn with hstage | hstage | hstage <;> simp [step, hstage, afterWhole]
    refine hpoint.append fun n' hn' => ?_
    have hstage : n'.stage = .point := by simpa using hn'
    have hdigits : n'.Reaches ds fractionStages := by
      refine reaches_someDigits (fun c hc => ?_) reaches_fractionDigit hnil hds
      refine reaches_singleton (n'.fractionDigit c) ?_ (fractionDigit_stage n' c)
      simp [step, hstage, hc]
    obtain ⟨n'', hscan, hend⟩ := hdigits
    exact ⟨n'', hscan, List.mem_append_right _ hend⟩

/-! #### The exponent -/

def exponentStages : List Stage := [.exponent, .hugeExponent]

/-- No exponent is too large where the value does not matter. -/
theorem exists_exponentDigit (n : NumberScan) (c : Char) :
    ∃ n', n.exponentDigit true c = .ok n' ∧ n'.stage ∈ exponentStages := by
  rw [exponentDigit]
  split
  · exact ⟨_, rfl, by simp [exponentStages]⟩
  · exact ⟨_, rfl, by simp [exponentStages]⟩

theorem reaches_exponentDigit (n : NumberScan) (c : Char)
    (hn : n.stage ∈ Stage.exponentMark :: .exponentSign :: exponentStages)
    (hc : c.isDigit = true) : n.Reaches [c] exponentStages := by
  obtain ⟨n', hn', hstage'⟩ := exists_exponentDigit n c
  have hplus : c ≠ '+' := by
    rintro rfl
    contradiction
  have hminus : c ≠ '-' := by
    rintro rfl
    contradiction
  simp only [exponentStages, List.mem_cons, List.not_mem_nil, or_false] at hn
  rcases hn with hstage | hstage | hstage | hstage
  · exact reaches_singleton n' (by simp [step, hstage, hc, hplus, hminus, hn']) hstage'
  · exact reaches_singleton n' (by simp [step, hstage, hc, hn']) hstage'
  · exact reaches_singleton n' (by simp [step, hstage, hc, hn']) hstage'
  · refine reaches_singleton n ?_ ?_
    · simp [step, hstage, hc]
    · simp [hstage, exponentStages]

def closedStages : List Stage := afterFractionStages ++ exponentStages

theorem reaches_exponent (hn : n.stage ∈ afterFractionStages) {exponent : List Char}
    (hexponent : IsExponent exponent) : n.Reaches exponent closedStages := by
  rcases hexponent with rfl | ⟨mark, sign, ds, rfl, hmark, hsign, hnil, hds⟩
  · exact reaches_nil (List.mem_append_left _ hn)
  have hbegin : n.Reaches [mark] [.exponentMark] := by
    refine reaches_singleton { n with stage := .exponentMark } ?_ (by simp)
    have hmark' : isExponentMark mark = true ∧ mark.isDigit = false ∧ mark ≠ '.' := by
      rcases hmark with rfl | rfl <;> decide
    simp only [afterFractionStages, afterWholeStages, wholeStages, fractionStages, List.cons_append,
      List.nil_append, List.mem_cons, List.not_mem_nil, or_false] at hn
    rcases hn with hstage | hstage | hstage | hstage | hstage <;>
      simp [step, hstage, afterWhole, afterFraction, hmark']
  have hdigits (n : NumberScan) (hn : n.stage ∈ [Stage.exponentMark, .exponentSign]) :
      n.Reaches ds closedStages := by
    have hsome : n.Reaches ds exponentStages := by
      refine reaches_someDigits (fun c hc => ?_) (fun n c hn hc => ?_) hnil hds
      · exact reaches_exponentDigit n c (List.mem_append_left exponentStages hn) hc
      · exact reaches_exponentDigit n c (by simp [hn]) hc
    obtain ⟨n', hscan, hstage⟩ := hsome
    exact ⟨n', hscan, List.mem_append_right _ hstage⟩
  rw [List.cons_append, ← List.singleton_append]
  refine hbegin.append fun n' hn' => ?_
  have hstage : n'.stage = .exponentMark := by simpa using hn'
  rcases hsign with rfl | rfl | rfl
  · exact hdigits n' (by simp [hstage])
  · have hsigned : n'.Reaches ['+'] [.exponentSign] :=
      reaches_singleton { n' with stage := .exponentSign }
        (by simp [step, hstage]) (by simp)
    exact hsigned.append fun n'' hn'' => hdigits n'' (List.mem_cons_of_mem _ hn'')
  · have hsigned : n'.Reaches ['-'] [.exponentSign] :=
      reaches_singleton { n' with stage := .exponentSign, exponentNegative := true }
        (by simp [step, hstage]) (by simp)
    exact hsigned.append fun n'' hn'' => hdigits n'' (List.mem_cons_of_mem _ hn'')

theorem exists_scan_of_isNumber {token : Token} (h : IsNumber token) :
    ∃ c cs n, token = c :: cs ∧ (c = '-' ∨ c.isDigit = true) ∧
      scanAll (step true) (start c) cs = some n ∧ n.isOpen = false := by
  obtain ⟨hsign, hwhole, hfraction, hexponent⟩ := h
  obtain ⟨c, cs, hcs, hc, hreaches⟩ := reaches_whole hsign hwhole
  have hall := hreaches.append fun n hn => (reaches_fraction hn hfraction).append fun n' hn' =>
    reaches_exponent hn' hexponent
  obtain ⟨n, hscan, hstage⟩ := hall
  refine ⟨c, _, n, ?_, hc, hscan, ?_⟩
  · rw [← List.append_assoc, hcs, List.cons_append]
  · simp only [closedStages, afterFractionStages, afterWholeStages, wholeStages, fractionStages,
      exponentStages, List.cons_append, List.nil_append, List.mem_cons, List.not_mem_nil,
      or_false] at hstage
    rw [isOpen]
    rcases hstage with hstage | hstage | hstage | hstage | hstage | hstage | hstage <;> rw [hstage]

end NumberScan

/-! ### Strings -/

theorem exists_codeUnit {a b c d : Char} (ha : a ∈ hexDigits) (hb : b ∈ hexDigits)
    (hc : c ∈ hexDigits) (hd : d ∈ hexDigits) : ∃ n, codeUnit? [a, b, c, d] = some n := by
  have hall : hexDigits.all (fun c => (hexValue? c).isSome) = true := rfl
  have hvalue (c : Char) (hc : c ∈ hexDigits) : ∃ n, hexValue? c = some n :=
    Option.isSome_iff_exists.mp (List.all_eq_true.mp hall c hc)
  obtain ⟨na, ha⟩ := hvalue a ha
  obtain ⟨nb, hb⟩ := hvalue b hb
  obtain ⟨nc, hc⟩ := hvalue c hc
  obtain ⟨nd, hd⟩ := hvalue d hd
  refine ⟨((na * 16 + nb) * 16 + nc) * 16 + nd, ?_⟩
  simp [codeUnit?, ha, hb, hc, hd]

theorem byteCount_hexDigits {cs : List Char} (h : ∀ c ∈ cs, c ∈ hexDigits) :
    StringScan.byteCount cs = cs.length := by
  have hall : hexDigits.all (fun c => c.utf8Size == 1) = true := rfl
  have hsize (c : Char) (hc : c ∈ hexDigits) : c.utf8Size = 1 :=
    beq_iff_eq.mp (List.all_eq_true.mp hall c hc)
  induction cs with
  | nil => rfl
  | cons c cs ih =>
    obtain ⟨hc, hcs⟩ := List.forall_mem_cons.mp h
    rw [StringScan.byteCount, hsize c hc, ih hcs, List.length_cons, Nat.add_comm]

theorem step_hexDigit {s : StringScan} {read : List Char} (hs : s.stage = .hex none read) {c : Char}
    (hread : ∀ d ∈ c :: read, d ∈ hexDigits) (hlength : read.length < 3) :
    s.step true c = .ok (some { s with stage := .hex none (c :: read) }) := by
  have hopen : StringScan.byteCount (c :: read) < 4 := by
    rw [byteCount_hexDigits hread, List.length_cons]
    omega
  simp only [StringScan.step, hs, StringScan.hexDigit, hopen, if_true]
  rfl

theorem step_lastHexDigit {s : StringScan} {read : List Char} (hs : s.stage = .hex none read)
    {c : Char} (hread : ∀ d ∈ c :: read, d ∈ hexDigits) (hlength : read.length = 3) {n : Nat}
    (hn : codeUnit? (c :: read).reverse = some n) :
    s.step true c = .ok (some { s with stage := .plain }) := by
  have hfull : ¬ StringScan.byteCount (c :: read) < 4 := by
    rw [byteCount_hexDigits hread, List.length_cons]
    omega
  simp only [StringScan.step, hs, StringScan.hexDigit, hfull, if_false, hn, StringScan.unit,
    if_true]
  rfl

/-- Any part of a string is passed over where the string does not matter. -/
theorem exists_scan_of_isUnit {unit : List Char} (h : IsUnit unit) {s : StringScan}
    (hs : s.stage = .plain) :
    ∃ s', scanAll (StringScan.step true) s unit = some s' ∧ s'.stage = .plain := by
  cases h with
  | @plain c hcontrol hquote hbackslash =>
    have hval : ¬ c.val < 0x20 := fun hlt =>
      absurd (UInt32.lt_iff_toNat_lt.mp hlt) (Nat.not_lt.mpr hcontrol)
    refine ⟨s.push c, scanAll_cons ?_ [], rfl⟩
    simp [StringScan.step, hs, hquote, hbackslash, hval]
  | @escape c hc =>
    have hescaped : c ≠ 'u' ∧ ∃ d, escaped? c = some d := by
      simp only [List.mem_cons, List.not_mem_nil, or_false] at hc
      rcases hc with rfl | rfl | rfl | rfl | rfl | rfl | rfl | rfl <;>
        exact ⟨by decide, _, rfl⟩
    obtain ⟨hunicode, d, hd⟩ := hescaped
    refine ⟨s.push d, ?_, rfl⟩
    have hopen : s.step true '\\' = .ok (some { s with stage := .backslash }) := by
      simp [StringScan.step, hs]
    rw [scanAll_cons hopen]
    refine scanAll_cons ?_ []
    simp [StringScan.step, hunicode, hd, StringScan.push]
  | @code a b c d ha hb hc hd =>
    obtain ⟨n, hn⟩ := exists_codeUnit ha hb hc hd
    let stands (stage : StringScan.Stage) : StringScan := ⟨stage, s.read⟩
    have hopen : s.step true '\\' = .ok (some (stands .backslash)) := by
      simp [StringScan.step, hs, stands]
    have hmark : (stands .backslash).step true 'u' = .ok (some (stands (.hex none []))) := rfl
    have hone : (stands (.hex none [])).step true a = .ok (some (stands (.hex none [a]))) :=
      step_hexDigit rfl (by simp [ha]) (by simp)
    have htwo : (stands (.hex none [a])).step true b = .ok (some (stands (.hex none [b, a]))) :=
      step_hexDigit rfl (by simp [ha, hb]) (by simp)
    have hthree : (stands (.hex none [b, a])).step true c =
        .ok (some (stands (.hex none [c, b, a]))) :=
      step_hexDigit rfl (by simp [ha, hb, hc]) (by simp)
    have hdigits : ∀ e ∈ [d, c, b, a], e ∈ hexDigits := by simp [ha, hb, hc, hd]
    have hfour : (stands (.hex none [c, b, a])).step true d = .ok (some (stands .plain)) :=
      step_lastHexDigit rfl hdigits rfl hn
    refine ⟨stands .plain, ?_, rfl⟩
    rw [scanAll_cons hopen, scanAll_cons hmark, scanAll_cons hone, scanAll_cons htwo,
      scanAll_cons hthree, scanAll_cons hfour]
    rfl

theorem exists_scan_of_isString {token : Token} (h : IsString token) :
    ∃ body s, token = '"' :: body ++ ['"'] ∧
      scanAll (StringScan.step true) .start body = some s ∧ s.stage = .plain := by
  obtain ⟨hunits⟩ := h
  rename_i units
  have hscan : ∀ s : StringScan, s.stage = .plain →
      ∃ s', scanAll (StringScan.step true) s units.flatten = some s' ∧ s'.stage = .plain := by
    induction units with
    | nil => exact fun s hs => ⟨s, rfl, hs⟩
    | cons unit units ih =>
      intro s hs
      obtain ⟨hunit, hunits⟩ := List.forall_mem_cons.mp hunits
      obtain ⟨s', hscan, hs'⟩ := exists_scan_of_isUnit hunit hs
      obtain ⟨s'', hscan', hs''⟩ := ih hunits s' hs'
      exact ⟨s'', (scanAll_append hscan _).trans hscan', hs''⟩
  obtain ⟨s, hs, hplain⟩ := hscan .start rfl
  exact ⟨_, s, rfl, hs, hplain⟩

/-! ### Values -/

namespace Reader

variable {limit : Option Nat}

theorem passes_ignoredList {stack : List Frame} {a : Await} (h : Takes .ignored a)
    {items : List (List Token)}
    (hitems : ∀ item ∈ items, ∀ stack a, Takes .ignored a →
      Passes limit item ⟨stack, .await a⟩ (complete stack .null)) :
    Passes limit (enclosed '[' ']' items) ⟨stack, .await a⟩ (complete stack .null) := by
  rw [← List.map_id items]
  refine passes_brackets (fun _ => .ignoredList) h rfl ?_ (between_complete _ _) rfl
  intro xs item ys hall
  exact hitems item (by simp [hall]) (.ignoredList :: stack) _ (.element xs.isEmpty)

theorem passes_ignoredObject {stack : List Frame} {a : Await} (h : Takes .ignored a)
    {members : List (Token × List Token)} (hnames : ∀ m ∈ members, IsString m.1)
    (hvalues : ∀ m ∈ members, ∀ stack a, Takes .ignored a →
      Passes limit m.2 ⟨stack, .await a⟩ (complete stack .null)) :
    Passes limit (enclosed '\x7b' '\x7d' (members.map fun m => memberTokens m.1 m.2))
      ⟨stack, .await a⟩ (complete stack .null) := by
  refine passes_braces (fun _ => .ignoredObject) h rfl ?_ (between_complete _ _) rfl
  intro xs m ys hall
  have hm : m ∈ members := by simp [hall]
  obtain ⟨body, s, hname, hscan, hplain⟩ := exists_scan_of_isString (hnames m hm)
  have hvalue := hvalues m hm (.ignoredObject :: stack) _ .value
  rw [hname]
  exact passes_member (passes_name hscan hplain rfl (.await _ _)) hvalue

/-- A well-formed value is passed over where its value does not matter. -/
theorem passes_ignored {tokens : List Token} (h : WellFormed tokens) :
    ∀ stack a, Takes .ignored a →
      Passes limit tokens ⟨stack, .await a⟩ (complete stack .null) := by
  induction h with
  | null => exact fun stack a h => passes_null h rfl
  | bool b => exact fun stack a h => passes_wordText h rfl
  | number hnumber =>
    intro stack a h
    obtain ⟨c, cs, n, rfl, hc, hscan, hclosed⟩ := NumberScan.exists_scan_of_isNumber hnumber
    have hfinish : n.finish true = .ok (.integer 0) := by simp [NumberScan.finish, hclosed]
    exact passes_number h hc hscan hclosed hfinish rfl
  | string hstring =>
    intro stack a h
    obtain ⟨body, s, rfl, hscan, hplain⟩ := exists_scan_of_isString hstring
    exact passes_string h hscan hplain rfl
  | array _ ih => exact fun stack a h => passes_ignoredList h ih
  | object hnames _ ih => exact fun stack a h => passes_ignoredObject h hnames ih

end Reader

end ScriptFeatures.Json
