import EspTree.Runtime.Messages

/-!
# The arguments of a command

`CommandRequest` of `esp_tree_runtime.proto` with its encodings: the fields come in any order, the arguments in
theirs, a string that is empty may be left out, and the member of a `oneof` is there also where it is the
default.  `parse_command_request` has no schema for the value of an argument and goes by the wire type.

`parseCommandRequest_encode` is what it makes of an encoding.  It follows the schema exactly where every
`int_value` is zero (`followsSchema_iff`): the `sint64` of the schema is a zigzag number, which the reader takes
for the number itself.
-/

namespace EspTree

open Wire

namespace Runtime

/-! ## The schema -/

/-- `oneof value` of `CommandArgument`. -/
inductive ArgumentValue
  | bool (value : Bool)
  | int (value : Int64)
  | float (value : Octets 8)
  | string (value : Bytes)

/-- `CommandArgument` of the schema. -/
structure CommandArgument where
  name : Bytes
  value : Option ArgumentValue

/-- `CommandRequest` of the schema. -/
structure CommandRequest where
  remoteMac : Bytes
  objectId : Bytes
  command : Bytes
  args : List CommandArgument

/-- The field of a member. -/
def ArgumentValue.toField : ArgumentValue → Proto.Field
  | .bool value => ⟨10, .varint value.toNat⟩
  | .int value => ⟨11, .varint (Proto.zigzag value.toInt)⟩
  | .float value => ⟨12, .fixed64 value⟩
  | .string value => ⟨13, .bytes value⟩

/-- The fields that a string of the schema may have. -/
inductive StringField (number : Nat) (s : Bytes) : List Proto.Field → Prop
  | omitted (h : s = []) : StringField number s []
  | present : StringField number s [⟨number, .bytes s⟩]

/-- An encoding of an argument. -/
structure CommandArgument.EncodedAs (arg : CommandArgument) (fs : List Proto.Field) : Prop where
  name : StringField 1 arg.name (fs.filter (·.number = 1))
  value : fs.filter (·.number ≠ 1) = arg.value.toList.map ArgumentValue.toField

/-- A field that holds an encoding of an argument. -/
def CommandArgument.InField (arg : CommandArgument) (f : Proto.Field) : Prop :=
  ∃ fs, arg.EncodedAs fs ∧ f = ⟨4, .bytes (Proto.encodeFields fs)⟩

/-- An encoding of a request. -/
structure CommandRequest.EncodedAs (req : CommandRequest) (fs : List Proto.Field) : Prop where
  remoteMac : StringField 1 req.remoteMac (fs.filter (·.number = 1))
  objectId : StringField 2 req.objectId (fs.filter (·.number = 2))
  command : StringField 3 req.command (fs.filter (·.number = 3))
  args : List.Forall₂ CommandArgument.InField req.args (fs.filter (·.number = 4))
  only : ∀ f ∈ fs, f.number ∈ [1, 2, 3, 4]

/-- A number in decimal. -/
def decimalInt (n : Int) : Bytes := if 0 ≤ n then decimal n.toNat else 45 :: decimal (-n).toNat

/-- The text that the schema asks for.  It asks for none where there is no value, and for none of a `double`. -/
def ArgumentValue.HasText : ArgumentValue → Bytes → Prop
  | .bool value, text => text = if value then [49] else [48]
  | .int value, text => text = decimalInt value.toInt
  | .float _, _ => True
  | .string value, text => text = value

/-- A result has the strings of the request, and its arguments with their texts. -/
structure CommandRequest.Follows (req : CommandRequest) (out : ParsedCommandRequest) : Prop where
  remoteMac : out.remoteMac = req.remoteMac
  objectId : out.objectId = req.objectId
  command : out.command = req.command
  args : List.Forall₂
    (fun arg parsed => parsed.name = arg.name ∧ ∀ value ∈ arg.value, value.HasText parsed.value) req.args out.args

/-! ## What is read -/

section

variable (doubleText : Octets 8 → Bytes)

/-- What the reader makes of an argument. -/
def CommandArgument.read (arg : CommandArgument) : ParsedCommandArgument :=
  ⟨arg.name, (arg.value.map fun value => valueText doubleText value.toField.value).getD []⟩

/-- What the reader makes of a request. -/
def CommandRequest.read (req : CommandRequest) : ParsedCommandRequest :=
  ⟨req.remoteMac, req.objectId, req.command, req.args.map (CommandArgument.read doubleText)⟩

end

theorem lastBytes_filter (number : Nat) (fs : List Proto.Field) :
    Proto.lastBytes number (fs.filter (·.number = number)) = Proto.lastBytes number fs := by
  induction fs using List.reverseRecOn with
  | nil => rfl
  | append_singleton fs f ih =>
    rw [List.filter_append]
    by_cases hnumber : f.number = number
    · have hfilter : [f].filter (·.number = number) = [f] := by simp [hnumber]
      rw [hfilter, Proto.lastBytes_append, Proto.lastBytes_append, ih]
    · have hfilter : [f].filter (·.number = number) = [] := by simp [hnumber]
      rw [hfilter, List.append_nil, ih, Proto.lastBytes_append_of_ne fs hnumber]

namespace StringField

variable {number : Nat} {s : Bytes} {fs : List Proto.Field}

/-- A string that may be left out is read back all the same, since it is then the default. -/
theorem lastBytes_eq (h : StringField number s (fs.filter (·.number = number))) :
    Proto.lastBytes number fs = s := by
  rw [← lastBytes_filter]
  generalize fs.filter (·.number = number) = gs at h
  cases h with
  | omitted h => exact h.symm
  | present => exact if_pos rfl

/-- Where it is there, it is there as the schema says. -/
theorem eq_of_mem {f : Proto.Field} (h : StringField number s (fs.filter (·.number = number))) (hf : f ∈ fs)
    (hnumber : f.number = number) : f = ⟨number, .bytes s⟩ := by
  have hmem : f ∈ fs.filter (·.number = number) := List.mem_filter.2 ⟨hf, by simpa using hnumber⟩
  generalize fs.filter (·.number = number) = gs at h hmem
  cases h with
  | omitted _ => cases hmem
  | present => exact List.mem_singleton.1 hmem

end StringField

/-- The number of a member is one of those that the reader takes for a value. -/
theorem ArgumentValue.number_toField (value : ArgumentValue) :
    10 ≤ value.toField.number ∧ value.toField.number < 2 ^ 32 := by
  cases value <;> simp [toField]

section

variable (doubleText : Octets 8 → Bytes) {m : Bytes} {v : View} {fs : List Proto.Field} {arg : CommandArgument}
  {req : CommandRequest}

/-! ### An argument -/

namespace CommandArgument.EncodedAs

/-- A field of an argument is its name or its value. -/
theorem cases_of_mem {f : Proto.Field} (h : arg.EncodedAs fs) (hf : f ∈ fs) :
    f = ⟨1, .bytes arg.name⟩ ∨ ∃ value ∈ arg.value, f = value.toField := by
  by_cases hnumber : f.number = 1
  · exact .inl (h.name.eq_of_mem hf hnumber)
  · have hmem : f ∈ fs.filter (·.number ≠ 1) := List.mem_filter.2 ⟨hf, by simpa using hnumber⟩
    rw [h.value] at hmem
    obtain ⟨value, hvalue, rfl⟩ := List.mem_map.1 hmem
    exact .inr ⟨value, Option.mem_toList.1 hvalue, rfl⟩

theorem fits (h : arg.EncodedAs fs) (hlength : (Proto.encodeFields fs).length < 2 ^ 64) : ∀ f ∈ fs, f.Fits := by
  intro f hf
  have hsize := (Proto.size_le_length_encodeFields hf).trans_lt hlength
  rcases h.cases_of_mem hf with rfl | ⟨value, -, rfl⟩
  · exact ⟨(by decide : 1 < 2 ^ 32), hsize⟩
  · refine ⟨value.number_toField.2, ?_⟩
    cases value with
    | bool b => exact (Bool.toNat_lt b).trans (by decide)
    | int n => exact zigzag_toInt_lt n
    | float d => trivial
    | string s => exact hsize

end CommandArgument.EncodedAs

/-- What the inner loop has found after some of the fields of an argument. -/
structure CommandArgument.After (doubleText : Octets 8 → Bytes) (done : List Proto.Field)
    (out : ParsedCommandArgument) : Prop where
  name : out.name = Proto.lastBytes 1 done
  value : out.value =
    ((done.filter (·.number ≠ 1)).getLast?.map fun f => valueText doubleText f.value).getD []

/-- The inner loop on an encoding of an argument. -/
theorem parseCommandArgument_encode (harg : arg.EncodedAs fs) (hv : v.Inside m)
    (hlength : (Proto.encodeFields fs).length < 2 ^ 64) (hbytes : v.bytes m = Proto.encodeFields fs) :
    parseCommandArgument doubleText m v = .ok (true, arg.read doubleText) := by
  have hscan : ∃ out, scan m v (branches (argumentBranches doubleText m v)) {} = .ok (true, out) ∧
      CommandArgument.After doubleText fs out := by
    refine scan_encode hv hbytes (harg.fits hlength) (fun {done f raw out} hpre hraw hdone => ?_) ⟨rfl, rfl⟩
    rcases harg.cases_of_mem (hpre.subset (List.mem_append_right _ List.mem_cons_self)) with
      rfl | ⟨value, -, rfl⟩
    · refine ⟨{ out with name := arg.name }, ?_, ?_, ?_⟩
      · rw [argumentBranches, branches, onString_bytes hv hraw, if_pos rfl]
        rfl
      · rw [Proto.lastBytes_append]
        rfl
      · rw [List.filter_append]
        simpa using hdone.value
    · have hnumber := value.number_toField.1
      refine ⟨{ out with value := valueText doubleText value.toField.value }, ?_, ?_, ?_⟩
      · rw [argumentBranches, branches, branches, onString_of_number_ne hraw (by omega),
          onArgumentValue_eq doubleText hv hraw, if_pos hnumber]
        rfl
      · rw [Proto.lastBytes_append_of_ne done (by omega)]
        exact hdone.name
      · have hne : value.toField.number ≠ 1 := by omega
        have hfilter : [value.toField].filter (·.number ≠ 1) = [value.toField] := by simp [hne]
        rw [List.filter_append, hfilter, List.getLast?_concat]
        rfl
  obtain ⟨⟨name, value⟩, hscan, hname, hvalue⟩ := hscan
  have hname' : name = arg.name := hname.trans harg.name.lastBytes_eq
  have hvalue' : value = (arg.read doubleText).value := by
    rw [harg.value] at hvalue
    dsimp only at hvalue
    rw [hvalue, CommandArgument.read]
    cases arg.value <;> rfl
  rw [parseCommandArgument, parse, hscan, hname', hvalue']
  rfl

/-! ### A request -/

namespace CommandRequest.EncodedAs

/-- A field of a request is one of its strings, or holds an argument. -/
theorem cases_of_mem {f : Proto.Field} (h : req.EncodedAs fs) (hf : f ∈ fs) :
    f = ⟨1, .bytes req.remoteMac⟩ ∨ f = ⟨2, .bytes req.objectId⟩ ∨ f = ⟨3, .bytes req.command⟩ ∨
      ∃ arg, CommandArgument.InField arg f := by
  have hnumber := h.only f hf
  simp only [List.mem_cons, List.not_mem_nil, or_false] at hnumber
  rcases hnumber with hnumber | hnumber | hnumber | hnumber
  · exact .inl (h.remoteMac.eq_of_mem hf hnumber)
  · exact .inr (.inl (h.objectId.eq_of_mem hf hnumber))
  · exact .inr (.inr (.inl (h.command.eq_of_mem hf hnumber)))
  · have hmem : f ∈ fs.filter (·.number = 4) := List.mem_filter.2 ⟨hf, by simpa using hnumber⟩
    obtain ⟨i, hi, rfl⟩ := List.getElem_of_mem hmem
    exact .inr (.inr (.inr ⟨_, h.args.get (h.args.length_eq ▸ hi) hi⟩))

theorem fits (h : req.EncodedAs fs) (hlength : (Proto.encodeFields fs).length < 2 ^ 64) : ∀ f ∈ fs, f.Fits := by
  intro f hf
  have hsize := (Proto.size_le_length_encodeFields hf).trans_lt hlength
  rcases h.cases_of_mem hf with rfl | rfl | rfl | ⟨arg, gs, harg, rfl⟩
  · exact ⟨(by decide : 1 < 2 ^ 32), hsize⟩
  · exact ⟨(by decide : 2 < 2 ^ 32), hsize⟩
  · exact ⟨(by decide : 3 < 2 ^ 32), hsize⟩
  · exact ⟨(by decide : 4 < 2 ^ 32), hsize⟩

end CommandRequest.EncodedAs

/-- What `parse_command_request` has found after some of the fields of a request. -/
structure CommandRequest.After (doubleText : Octets 8 → Bytes) (done : List Proto.Field)
    (out : ParsedCommandRequest) : Prop where
  remoteMac : out.remoteMac = Proto.lastBytes 1 done
  objectId : out.objectId = Proto.lastBytes 2 done
  command : out.command = Proto.lastBytes 3 done
  args : List.Forall₂ (fun f parsed => ∀ arg, CommandArgument.InField arg f → parsed = arg.read doubleText)
    (done.filter (·.number = 4)) out.args

namespace CommandRequest.After

variable {doubleText} {done : List Proto.Field} {out : ParsedCommandRequest}

/-- A field that is not an argument. -/
theorem other {f : Proto.Field} {out' : ParsedCommandRequest} (h : After doubleText done out) (hf : f.number ≠ 4)
    (hremoteMac : out'.remoteMac = Proto.lastBytes 1 (done ++ [f]))
    (hobjectId : out'.objectId = Proto.lastBytes 2 (done ++ [f]))
    (hcommand : out'.command = Proto.lastBytes 3 (done ++ [f])) (hargs : out'.args = out.args) :
    After doubleText (done ++ [f]) out' := by
  refine ⟨hremoteMac, hobjectId, hcommand, ?_⟩
  have hfilter : [f].filter (·.number = 4) = [] := by simp [hf]
  rw [List.filter_append, hfilter, List.append_nil, hargs]
  exact h.args

/-- One more argument of an encoding, whatever stands between it and the one before. -/
theorem argument {b : Bytes} {parsed : ParsedCommandArgument} (h : After doubleText done out)
    (hparsed : ∀ arg, CommandArgument.InField arg ⟨4, .bytes b⟩ → parsed = arg.read doubleText) :
    After doubleText (done ++ [⟨4, .bytes b⟩]) { out with args := out.args ++ [parsed] } := by
  have hne : ∀ number, 4 ≠ number →
      Proto.lastBytes number (done ++ [⟨4, .bytes b⟩]) = Proto.lastBytes number done :=
    fun number hnumber => Proto.lastBytes_append_of_ne done hnumber
  refine ⟨?_, ?_, ?_, ?_⟩
  · rw [hne 1 (by decide)]
    exact h.remoteMac
  · rw [hne 2 (by decide)]
    exact h.objectId
  · rw [hne 3 (by decide)]
    exact h.command
  · rw [List.filter_append]
    exact List.rel_append h.args (.cons hparsed .nil)

end CommandRequest.After

/-- One more field of a request. -/
theorem requestBranches_step {done : List Proto.Field} {out : ParsedCommandRequest} {f : Proto.Field}
    {raw : RawField} (hreq : req.EncodedAs fs) (hv : v.Inside m) (hlength : v.length < 2 ^ 64) (hf : f ∈ fs)
    (hraw : raw.Represents m v f) (h : CommandRequest.After doubleText done out) :
    ∃ out', branches (requestBranches doubleText m v) raw out = .ok (true, out') ∧
      CommandRequest.After doubleText (done ++ [f]) out' := by
  unfold requestBranches
  rcases hreq.cases_of_mem hf with rfl | rfl | rfl | ⟨arg, gs, harg, rfl⟩
  · refine ⟨{ out with remoteMac := req.remoteMac }, ?_, h.other (by decide : 1 ≠ 4) ?_ ?_ ?_ rfl⟩
    · rw [branches, onString_bytes hv hraw, if_pos rfl]
      rfl
    · rw [Proto.lastBytes_append]; rfl
    · rw [Proto.lastBytes_append]; exact h.objectId
    · rw [Proto.lastBytes_append]; exact h.command
  · refine ⟨{ out with objectId := req.objectId }, ?_, h.other (by decide : 2 ≠ 4) ?_ ?_ ?_ rfl⟩
    · rw [branches, branches, onString_bytes hv hraw, if_neg (by decide), onString_bytes hv hraw, if_pos rfl]
      rfl
    · rw [Proto.lastBytes_append]; exact h.remoteMac
    · rw [Proto.lastBytes_append]; rfl
    · rw [Proto.lastBytes_append]; exact h.command
  · refine ⟨{ out with command := req.command }, ?_, h.other (by decide : 3 ≠ 4) ?_ ?_ ?_ rfl⟩
    · rw [branches, branches, branches, onString_bytes hv hraw, if_neg (by decide), onString_bytes hv hraw,
        if_neg (by decide), onString_bytes hv hraw, if_pos rfl]
      rfl
    · rw [Proto.lastBytes_append]; exact h.remoteMac
    · rw [Proto.lastBytes_append]; exact h.objectId
    · rw [Proto.lastBytes_append]; rfl
  · obtain ⟨w, hvalue, hw, hb⟩ := hraw.bytes _ rfl
    have hwv : w.length ≤ v.length := by
      have h₁ := hw.1
      have h₂ := hw.2
      omega
    have hwm := hw.inside hv
    have hsmall : ∀ {gs' : List Proto.Field}, Proto.encodeFields gs = Proto.encodeFields gs' →
        (Proto.encodeFields gs').length < 2 ^ 64 := by
      intro gs' heq
      rw [← heq, ← hb, View.length_bytes hwm]
      exact hwv.trans_lt hlength
    have hparse := parseCommandArgument_encode doubleText harg hwm (hsmall rfl) hb
    refine ⟨{ out with args := out.args ++ [arg.read doubleText] }, ?_, h.argument ?_⟩
    · rw [branches, branches, branches, branches, onString_bytes hv hraw, if_neg (by decide),
        onString_bytes hv hraw, if_neg (by decide), onString_bytes hv hraw, if_neg (by decide),
        onMessage_bytes hraw hvalue, if_pos rfl, hparse]
      rfl
    · -- another argument with the same bytes is read in the same way
      rintro arg' ⟨gs', harg', hfield⟩
      have heq : Proto.encodeFields gs = Proto.encodeFields gs' :=
        Proto.Value.bytes.inj (Proto.Field.mk.inj hfield).2
      have hparse' := parseCommandArgument_encode doubleText harg' hwm (hsmall heq) (hb.trans heq)
      exact (Prod.mk.inj (Except.ok.inj (hparse.symm.trans hparse'))).2

/-- The arguments come out in the order in which they were encoded. -/
theorem read_of_forall₂ {args : List CommandArgument} {gs : List Proto.Field} {out : List ParsedCommandArgument}
    (hargs : List.Forall₂ CommandArgument.InField args gs)
    (hout : List.Forall₂ (fun f parsed => ∀ arg, CommandArgument.InField arg f → parsed = arg.read doubleText)
      gs out) :
    out = args.map (CommandArgument.read doubleText) := by
  induction hargs generalizing out with
  | nil =>
    cases hout
    rfl
  | cons harg _ ih =>
    cases hout with
    | cons hparsed hout => rw [List.map_cons, ih hout, hparsed _ harg]

/-- What `parse_command_request` makes of an encoding of a request. -/
theorem parseCommandRequest_encode (hreq : req.EncodedAs fs) (hv : v.Inside m) (hlength : v.length < 2 ^ 64)
    (hbytes : v.bytes m = Proto.encodeFields fs) :
    parseCommandRequest doubleText m v =
      .ok (req.remoteMac != [] && req.objectId != [] && req.command != [], req.read doubleText) := by
  have hsmall : (Proto.encodeFields fs).length < 2 ^ 64 := by rwa [← hbytes, View.length_bytes hv]
  have hscan : ∃ out, scan m v (branches (requestBranches doubleText m v)) {} = .ok (true, out) ∧
      CommandRequest.After doubleText fs out := by
    refine scan_encode hv hbytes (hreq.fits hsmall) (fun hpre hraw hdone => ?_) ⟨rfl, rfl, rfl, .nil⟩
    have hmem := hpre.subset (List.mem_append_right _ List.mem_cons_self)
    exact requestBranches_step doubleText hreq hv hlength hmem hraw hdone
  obtain ⟨⟨remoteMac, objectId, command, args⟩, hscan, hremoteMac, hobjectId, hcommand, hargs⟩ := hscan
  have hremoteMac' : remoteMac = req.remoteMac := hremoteMac.trans hreq.remoteMac.lastBytes_eq
  have hobjectId' : objectId = req.objectId := hobjectId.trans hreq.objectId.lastBytes_eq
  have hcommand' : command = req.command := hcommand.trans hreq.command.lastBytes_eq
  have hargs' := read_of_forall₂ doubleText hreq.args hargs
  dsimp only at hargs'
  rw [parseCommandRequest, parse, hscan, hremoteMac', hobjectId', hcommand', hargs']
  rfl

end

/-! ## Where the schema is followed -/

/-- There is no sign in what has none. -/
theorem minus_not_mem_decimal (n : Nat) : 45 ∉ decimal n := fun hmem =>
  absurd (toNat_of_mem_decimal hmem).1 (by decide)

/-- A zigzag number has the text of the number that it stands for where that is zero, and nowhere else. -/
theorem decimal_zigzag_iff (n : Int) : decimal (Proto.zigzag n) = decimalInt n ↔ n = 0 := by
  constructor
  · intro h
    unfold decimalInt Proto.zigzag at h
    split at h
    next hn =>
      have hdouble := decimal_injective h
      omega
    next hn =>
      exact absurd (h ▸ List.mem_cons_self) (minus_not_mem_decimal _)
  · rintro rfl
    rfl

/-- The text that the reader has for a member is that of the schema, unless it is an integer other than zero. -/
theorem ArgumentValue.hasText_iff (doubleText : Octets 8 → Bytes) (value : ArgumentValue) :
    value.HasText (valueText doubleText value.toField.value) ↔ ∀ n, value = .int n → n = 0 := by
  cases value with
  | bool b =>
    have htext : decimal b.toNat = if b then [49] else [48] := by cases b <;> decide
    exact iff_of_true htext nofun
  | int n =>
    have hzero : n.toInt = 0 ↔ n = 0 := by rw [← Int64.toInt_inj, Int64.toInt_zero]
    refine ((decimal_zigzag_iff n.toInt).trans hzero).trans ⟨?_, fun h => h n rfl⟩
    rintro rfl n hn
    exact (ArgumentValue.int.inj hn).symm
  | float d => exact iff_of_true trivial nofun
  | string s => exact iff_of_true rfl nofun

/-- A request is followed where its integers are zero. -/
theorem CommandRequest.follows_read_iff (doubleText : Octets 8 → Bytes) (req : CommandRequest) :
    req.Follows (req.read doubleText) ↔ ∀ arg ∈ req.args, ∀ n, arg.value = some (.int n) → n = 0 := by
  have harg : ∀ arg : CommandArgument,
      ((arg.read doubleText).name = arg.name ∧ ∀ value ∈ arg.value, value.HasText (arg.read doubleText).value) ↔
        ∀ n, arg.value = some (.int n) → n = 0 := by
    rintro ⟨name, value⟩
    cases value with
    | none => exact iff_of_true ⟨rfl, nofun⟩ nofun
    | some value =>
      simp only [CommandArgument.read, Option.map_some, Option.getD_some, Option.mem_def, Option.some.injEq,
        forall_eq', true_and]
      exact value.hasText_iff doubleText
  constructor
  · intro h arg hmem
    have hargs := List.forall₂_same.1 (List.forall₂_map_right_iff.1 h.args)
    exact (harg arg).1 (hargs arg hmem)
  · intro h
    refine ⟨rfl, rfl, rfl, List.forall₂_map_right_iff.2 (List.forall₂_same.2 fun arg hmem => ?_)⟩
    exact (harg arg).2 (h arg hmem)

/-- The out-parameter follows the request, whatever the function returns. -/
def FollowsSchema (req : CommandRequest) (r : Except Fault (Bool × ParsedCommandRequest)) : Prop :=
  ∃ accepted out, r = .ok (accepted, out) ∧ req.Follows out

/-- A command is decoded as the schema has it where no argument is an integer other than zero.
`int_value` is a `sint64`, which is written in zigzag form, and the parser takes the number as it
stands. -/
theorem followsSchema_iff (doubleText : Octets 8 → Bytes) {req : CommandRequest} {fs : List Proto.Field}
    {m : Bytes} {v : View} (hreq : req.EncodedAs fs) (hv : v.Inside m) (hlength : v.length < 2 ^ 64)
    (hbytes : v.bytes m = Proto.encodeFields fs) :
    FollowsSchema req (parseCommandRequest doubleText m v) ↔
      ∀ arg ∈ req.args, ∀ n, arg.value = some (.int n) → n = 0 := by
  rw [← req.follows_read_iff doubleText, FollowsSchema,
    parseCommandRequest_encode doubleText hreq hv hlength hbytes]
  constructor
  · rintro ⟨accepted, out, hout, hfollows⟩
    exact (Prod.mk.inj (Except.ok.inj hout)).2 ▸ hfollows
  · intro h
    exact ⟨_, _, rfl, h⟩

/-- A command with one argument, `v`. -/
def fan (value : ArgumentValue) : CommandRequest :=
  ⟨[65], [102, 97, 110], [115, 101, 116], [⟨[118], some value⟩]⟩

/-- Its fields in the order of their numbers. -/
def fanFields (value : ArgumentValue) : List Proto.Field :=
  [⟨1, .bytes [65]⟩, ⟨2, .bytes [102, 97, 110]⟩, ⟨3, .bytes [115, 101, 116]⟩,
    ⟨4, .bytes (Proto.encodeFields [⟨1, .bytes [118]⟩, value.toField])⟩]

/-- The command of the example is encoded as a host does it. -/
theorem fan_encodedAs (value : ArgumentValue) : (fan value).EncodedAs (fanFields value) where
  remoteMac := .present
  objectId := .present
  command := .present
  args := .cons ⟨_, ⟨by cases value <;> exact .present, by cases value <;> rfl⟩, rfl⟩ .nil
  only := by simp [fanFields]

/-- A request that says `v: true`. -/
theorem followsSchema_fan :
    FollowsSchema (fan (.bool true))
      (parseCommandRequest (fun _ => []) (Proto.encodeFields (fanFields (.bool true)))
        (whole (Proto.encodeFields (fanFields (.bool true))))) :=
  (followsSchema_iff (fun _ => []) (fan_encodedAs (.bool true)) (whole_inside _) (by decide) (bytes_whole _)).2
    (by rintro arg harg n hn; obtain rfl := List.mem_singleton.1 harg; cases hn)

/-- A request that says `v: 1`, and is read as `v: 2`. -/
theorem not_followsSchema_fan :
    (fan (.int 1)).EncodedAs (fanFields (.int 1)) ∧
      parseCommandRequest (fun _ => []) (Proto.encodeFields (fanFields (.int 1)))
        (whole (Proto.encodeFields (fanFields (.int 1)))) =
        .ok (true, ⟨[65], [102, 97, 110], [115, 101, 116], [⟨[118], [50]⟩]⟩) ∧
      ¬FollowsSchema (fan (.int 1))
        (parseCommandRequest (fun _ => []) (Proto.encodeFields (fanFields (.int 1)))
          (whole (Proto.encodeFields (fanFields (.int 1))))) := by
  have hparse := parseCommandRequest_encode (fun _ => []) (fan_encodedAs (.int 1)) (whole_inside _)
    (by decide) (bytes_whole _)
  have htext : (fan (.int 1)).read (fun _ => []) = ⟨[65], [102, 97, 110], [115, 101, 116], [⟨[118], [50]⟩]⟩ := by
    decide
  refine ⟨fan_encodedAs _, hparse.trans (by rw [htext]; rfl), ?_⟩
  rintro ⟨accepted, out, hout, hfollows⟩
  rw [hparse] at hout
  cases hout
  cases hfollows.args with
  | cons harg _ =>
    have hzero := (ArgumentValue.hasText_iff (fun _ => []) (.int 1)).1 (harg.2 _ rfl) 1 rfl
    exact absurd hzero (by decide)

end Runtime

end EspTree
