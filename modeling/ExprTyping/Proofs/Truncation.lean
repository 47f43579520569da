import ExprTyping.Proofs.Rendering

/-!
# Truncated output

A sink with a limit holds the first bytes of what is written to it, wherever the limit cuts.
Writing succeeds exactly when nothing is lost.  Once something is lost the sink is full, so the
bytes of later steps never follow a gap.
-/

namespace ExprTyping

theorem Text.extract_of_size_le {bytes : ByteArray} {n : Nat} (h : bytes.size ≤ n) :
    bytes.extract 0 n = bytes := by
  rw [ByteArray.extract_eq_extract_append_extract bytes.size (Nat.zero_le _) h,
    ByteArray.extract_zero_size]
  have hrest : bytes.extract bytes.size n = ByteArray.empty :=
    ByteArray.extract_eq_empty_iff.2 (by omega)
  rw [hrest, ByteArray.append_empty]

theorem Text.extract_min_size (bytes : ByteArray) (n : Nat) :
    bytes.extract 0 (min n bytes.size) = bytes.extract 0 n := by
  rcases Nat.le_total bytes.size n with h | h
  · rw [Nat.min_eq_right h, ByteArray.extract_zero_size, extract_of_size_le h]
  · rw [Nat.min_eq_left h]

/-! ## What a sink takes -/

namespace Sink

variable {sink middle last : Sink} {bytes more : ByteArray} {limit : Nat}

theorem cut_of_none (h : sink.capacity = none) (bytes : ByteArray) : sink.cut bytes = bytes := by
  simp [cut, h]

theorem size_cut (h : sink.capacity = some limit) (bytes : ByteArray) :
    (sink.cut bytes).size = min (limit - sink.written.size) bytes.size := by
  simp [cut, h]

/-- Nothing is lost exactly when there is nothing to write or all of it fits. -/
theorem cut_eq_self_iff :
    sink.cut bytes = bytes ↔ bytes.size = 0 ∨ sink.fits bytes.size = true := by
  rcases hlimit : sink.capacity with _ | limit
  · simp [fits, hlimit, cut_of_none hlimit]
  · have hsize := size_cut hlimit bytes
    simp only [fits, hlimit, decide_eq_true_eq]
    constructor
    · intro hcut
      rw [hcut] at hsize
      omega
    · intro hfits
      simp only [cut, hlimit]
      exact Text.extract_of_size_le (by omega)

theorem cut_empty (sink : Sink) : sink.cut ByteArray.empty = ByteArray.empty :=
  cut_eq_self_iff.2 (.inl rfl)

/-- Where nothing of a text is lost, nothing of its beginning is. -/
theorem cut_eq_self_of_append (h : sink.cut (bytes ++ more) = bytes ++ more) :
    sink.cut bytes = bytes := by
  rcases hlimit : sink.capacity with _ | limit
  · exact cut_of_none hlimit bytes
  · simp only [cut_eq_self_iff, fits, hlimit, ByteArray.size_append, decide_eq_true_eq] at h ⊢
    omega

/-- The later sink has the same limit, and has taken as many of the bytes as fit. -/
structure Takes (sink : Sink) (bytes : ByteArray) (later : Sink) : Prop where
  capacity : later.capacity = sink.capacity
  written : later.written = sink.written ++ sink.cut bytes

namespace Takes

theorem refl (sink : Sink) : sink.Takes ByteArray.empty sink where
  capacity := rfl
  written := by rw [cut_empty, ByteArray.append_empty]

theorem size_written (h : sink.Takes bytes middle) (hlimit : sink.capacity = some limit) :
    middle.written.size = sink.written.size + min (limit - sink.written.size) bytes.size := by
  rw [h.written, ByteArray.size_append, size_cut hlimit]

/-- What fits of two texts is what fits of the first, and then what fits of the second. -/
theorem cut_append (h : sink.Takes bytes middle) (more : ByteArray) :
    sink.cut (bytes ++ more) = sink.cut bytes ++ middle.cut more := by
  rcases hlimit : sink.capacity with _ | limit
  · simp only [cut_of_none hlimit, cut_of_none (h.capacity.trans hlimit)]
  · have hsize := h.size_written hlimit
    simp only [cut, hlimit, h.capacity, ByteArray.extract_append]
    -- Both sides leave the second text the same room: the limit less what came before it.
    congr 2
    · omega
    · omega

theorem trans (h : sink.Takes bytes middle) (hnext : middle.Takes more last) :
    sink.Takes (bytes ++ more) last where
  capacity := hnext.capacity.trans h.capacity
  written := by rw [hnext.written, h.written, h.cut_append, ByteArray.append_assoc]

/-- A sink that lost some bytes has no room left. -/
theorem cut_of_lost (h : sink.Takes bytes middle) (hlost : sink.cut bytes ≠ bytes)
    (more : ByteArray) : middle.cut more = ByteArray.empty := by
  rcases hlimit : sink.capacity with _ | limit
  · exact absurd (cut_of_none hlimit bytes) hlost
  · have hmore := size_cut (h.capacity.trans hlimit) more
    have hsize := h.size_written hlimit
    simp only [ne_eq, cut_eq_self_iff, fits, hlimit, decide_eq_true_eq] at hlost
    rw [← ByteArray.size_eq_zero_iff]
    omega

/-- A sink that lost some bytes has also taken what fits of any longer text. -/
theorem append_of_lost (h : sink.Takes bytes middle) (hlost : sink.cut bytes ≠ bytes)
    (more : ByteArray) : sink.Takes (bytes ++ more) middle where
  capacity := h.capacity
  written := by
    rw [h.cut_append, h.cut_of_lost hlost, ByteArray.append_empty]
    exact h.written

/-- A sink without a limit has all bytes. -/
theorem written_of_unlimited (h : (Sink.empty none).Takes bytes middle) :
    middle.written = bytes := by
  rw [h.written, cut_of_none rfl]
  exact ByteArray.empty_append

/-- A sink with a limit has the first bytes. -/
theorem written_of_limited (h : (Sink.empty (some limit)).Takes bytes middle) :
    middle.written = bytes.extract 0 (min limit bytes.size) := by
  have hcut : (Sink.empty (some limit)).cut bytes = bytes.extract 0 limit := rfl
  rw [h.written, hcut, Text.extract_min_size]
  exact ByteArray.empty_append

/-- Nothing more is lost as long as everything is within the limit. -/
theorem cut_eq_self_iff_of_limited (h : (Sink.empty (some limit)).Takes bytes middle) :
    middle.cut more = more ↔ (bytes ++ more).size ≤ limit ∨ more = ByteArray.empty := by
  have hlimit : middle.capacity = some limit := h.capacity
  have hsize : middle.written.size = min limit bytes.size := by
    rw [h.written_of_limited, ByteArray.size_extract]
    omega
  rw [cut_eq_self_iff, ← ByteArray.size_eq_zero_iff, ByteArray.size_append]
  simp only [fits, hlimit, hsize, decide_eq_true_eq]
  omega

end Takes

end Sink

/-! ## Actions that write -/

namespace Writing

variable {first next : Writing Unit} {sink middle : Sink} {bytes more : ByteArray}

/-- After a failure, nothing more is attempted. -/
theorem bind_of_error {α β : Type} {first : Writing α} {next : α → Writing β}
    {error : WriteError} (h : first sink = (.error error, middle)) :
    (first >>= next) sink = (.error error, middle) := by
  change ExceptT.bindCont next (first sink).1 (first sink).2 = _
  rw [h]
  rfl

/-- An action that writes the bytes that fit, and that succeeds exactly when nothing is lost. -/
def Writes (action : Writing Unit) (bytes : ByteArray) : Prop :=
  ∀ sink : Sink, sink.Takes bytes (action sink).2 ∧
    ((action sink).1 = .ok () ↔ sink.cut bytes = bytes)

theorem writes_write (s : String) : Writes (Sink.write s) s.toUTF8 := by
  intro sink
  have hcut : (s.toUTF8.isEmpty || sink.fits s.toUTF8.size) = true ↔
      sink.cut s.toUTF8 = s.toUTF8 := by
    simp [Sink.cut_eq_self_iff, ByteArray.isEmpty]
  rw [← hcut, Sink.write]
  split
  · next hfits => exact ⟨⟨rfl, by rw [hcut.1 hfits]⟩, iff_of_true rfl hfits⟩
  · next hfits => exact ⟨⟨rfl, rfl⟩, iff_of_false (by simp) hfits⟩

theorem writes_pure : Writes (pure ()) ByteArray.empty := by
  intro sink
  exact ⟨.refl sink, iff_of_true rfl sink.cut_empty⟩

theorem writes_flush : Writes Sink.flush ByteArray.empty := by
  intro sink
  exact ⟨⟨rfl, (Sink.Takes.refl sink).written⟩, iff_of_true rfl sink.cut_empty⟩

/-- What is written first is followed by what is written next, unless some of it is lost. -/
theorem Writes.bind (hfirst : Writes first bytes) (hnext : Writes next more) :
    Writes (first >>= fun _ => next) (bytes ++ more) := by
  intro sink
  obtain ⟨htakes, hok⟩ := hfirst sink
  rcases hresult : first sink with ⟨error | _, middle⟩
  · -- The next action is not attempted, and nothing of it would have fitted.
    rw [hresult] at htakes hok
    have hlost : sink.cut bytes ≠ bytes := fun hcut => nomatch hok.2 hcut
    rw [bind_of_error hresult]
    exact ⟨htakes.append_of_lost hlost more,
      iff_of_false (by simp) fun hcut => hlost (Sink.cut_eq_self_of_append hcut)⟩
  · rw [hresult] at htakes hok
    have hkept : sink.cut bytes = bytes := hok.1 rfl
    rw [bind_of_ok hresult, htakes.cut_append, hkept, ByteArray.append_right_inj]
    obtain ⟨htakes', hok'⟩ := hnext middle
    exact ⟨htakes.trans htakes', hok'⟩

end Writing

/-! ## Showing on a limited sink -/

/-- What a command shows. -/
def Command.layout (source : Option String) : Command → List Piece
  | .emit d => d.layout source
  | .emitAll ds => ds.flatMap (Diagnostic.layout source)
  | .finish count => summaryLayout count

namespace Terminal

theorem writes_put (terminal : Terminal) (pieces : List Piece) :
    Writing.Writes (terminal.put pieces) (Piece.renderAll terminal.colors pieces).toUTF8 := by
  induction pieces with
  | nil => exact Writing.writes_pure
  | cons piece pieces ih =>
      rw [Piece.renderAll_cons, String.toUTF8_eq_toByteArray, String.toByteArray_append]
      exact (Writing.writes_write _).bind ih

/-- A flush after the pieces writes nothing more. -/
theorem writes_put_flush (terminal : Terminal) (pieces : List Piece) :
    Writing.Writes (terminal.put pieces >>= fun _ => Sink.flush)
      (Piece.renderAll terminal.colors pieces).toUTF8 := by
  simpa using (terminal.writes_put pieces).bind Writing.writes_flush

/-- The bytes of commands one after the other. -/
def output (terminal : Terminal) (commands : List Command) : ByteArray :=
  (Piece.renderAll terminal.colors (commands.flatMap (Command.layout terminal.source))).toUTF8

theorem output_append (terminal : Terminal) (commands others : List Command) :
    terminal.output (commands ++ others) = terminal.output commands ++ terminal.output others := by
  simp [output]

theorem writes_perform (terminal : Terminal) (command : Command) :
    Writing.Writes (terminal.perform command) (terminal.output [command]) := by
  rw [output, List.flatMap_singleton]
  rcases command with d | ds | count
  · exact terminal.writes_put _
  · rw [perform, emitAll_eq_put]
    exact terminal.writes_put _
  · exact terminal.writes_put_flush _

/-- The sink after all commands, whether or not they succeeded. -/
def after (terminal : Terminal) (commands : List Command) (sink : Sink) : Sink :=
  commands.foldl (fun sink command => (terminal.perform command sink).2) sink

theorem takes_after (terminal : Terminal) (commands : List Command) (sink : Sink) :
    sink.Takes (terminal.output commands) (terminal.after commands sink) := by
  induction commands generalizing sink with
  | nil => exact .refl sink
  | cons command commands ih =>
      rw [← List.singleton_append, output_append]
      have hstep := (terminal.writes_perform command sink).1
      exact hstep.trans (ih _)

/-- On a limited sink a step succeeds if everything up to it fits, or if it writes nothing. -/
theorem perform_limited_eq_ok_iff (terminal : Terminal) (limit : Nat) (before : List Command)
    (command : Command) :
    (terminal.perform command (terminal.after before (Sink.empty (some limit)))).1 = .ok () ↔
      (terminal.output (before ++ [command])).size ≤ limit ∨
        terminal.output (before ++ [command]) = terminal.output before := by
  have hnothing : terminal.output (before ++ [command]) = terminal.output before ↔
      terminal.output [command] = ByteArray.empty := by
    calc
      _ ↔ terminal.output before ++ terminal.output [command] =
          terminal.output before ++ ByteArray.empty := by
        rw [output_append, ByteArray.append_empty]
      _ ↔ _ := ByteArray.append_right_inj _
  have hbefore := terminal.takes_after before (Sink.empty (some limit))
  rw [(terminal.writes_perform command _).2, hbefore.cut_eq_self_iff_of_limited, hnothing,
    output_append]

/-- Showing diagnostics stops at the first that fails, and leaves the sink as that one did. -/
theorem emitAll_eq_error_iff (terminal : Terminal) (ds : List Diagnostic) (sink last : Sink)
    (error : WriteError) :
    terminal.emitAll ds sink = (.error error, last) ↔
      ∃ shown d rest middle, ds = shown ++ d :: rest ∧
        terminal.emitAll shown sink = (.ok (), middle) ∧
        terminal.emit d middle = (.error error, last) := by
  constructor
  · intro h
    induction ds generalizing sink with
    | nil => exact nomatch h
    | cons d ds ih =>
        rcases hfirst : terminal.emit d sink with ⟨error' | _, middle⟩
        · have hstop := (Writing.bind_of_error hfirst).symm.trans h
          exact ⟨[], d, ds, sink, rfl, rfl, hfirst.trans hstop⟩
        · have hrest : terminal.emitAll ds middle = (.error error, last) :=
            (Writing.bind_of_ok hfirst).symm.trans h
          obtain ⟨shown, failed, rest, middle', rfl, hshown, hfailed⟩ := ih middle hrest
          exact ⟨d :: shown, failed, rest, middle', rfl,
            (Writing.bind_of_ok hfirst).trans hshown, hfailed⟩
  · rintro ⟨shown, d, rest, middle, rfl, hshown, hfailed⟩
    have happend : terminal.emitAll (shown ++ d :: rest) =
        terminal.emitAll shown >>= fun _ => terminal.emitAll (d :: rest) := List.forM_append
    rw [happend, Writing.bind_of_ok hshown]
    exact Writing.bind_of_error hfailed

end Terminal

/-- Each diagnostic of a report, and then the closing line. -/
def Report.commands (report : Report) : List Command :=
  report.diagnostics.map .emit ++ [.finish report.errorCount]

theorem Report.writes_emit (terminal : Terminal) (report : Report) :
    Writing.Writes (report.emit terminal) (terminal.output report.commands) := by
  have hlayout : report.commands.flatMap (Command.layout terminal.source) =
      report.layout terminal.source := by
    simp [commands, layout, List.flatMap_map, Command.layout]
  rw [emit_eq_put, Terminal.output, hlayout]
  exact terminal.writes_put_flush _

/-- A report is shown whole exactly when all of it fits. -/
theorem Report.emit_limited_eq_ok_iff (terminal : Terminal) (report : Report) (limit : Nat) :
    (report.emit terminal (Sink.empty (some limit))).1 = .ok () ↔
      (terminal.output report.commands).size ≤ limit := by
  rw [(report.writes_emit terminal _).2, (Sink.Takes.refl _).cut_eq_self_iff_of_limited,
    ByteArray.empty_append]
  constructor
  · rintro (hsize | hempty)
    · exact hsize
    · simp [hempty]
  · exact .inl

/-- A limited sink truncates the output and never corrupts it.

Compare a sink of `n` bytes with a sink without a limit, to which the same commands are given.
The limited sink holds the first `n` bytes of what the other one received, or all of them if
there are fewer.  A step fails only on the limited sink.  There it succeeds, also after earlier
failures, exactly when the bytes received up to and including the step are at most `n`, or when
the step itself has nothing to write.  Of several diagnostics, none is attempted after the first
that fails.  A report is the special case of showing each diagnostic and then the closing line. -/
theorem limited_sink_holds_first_bytes (terminal : Terminal) (n : Nat) :
    let received (commands : List Command) : ByteArray :=
      (terminal.after commands (Sink.empty none)).written
    let limited (commands : List Command) : Sink :=
      terminal.after commands (Sink.empty (some n))
    (∀ commands, (limited commands).written =
      (received commands).extract 0 (min n (received commands).size)) ∧
    (∀ before command,
      (terminal.perform command (terminal.after before (Sink.empty none))).1 = .ok ()) ∧
    (∀ before command,
      (terminal.perform command (limited before)).1 = .ok () ↔
        (received (before ++ [command])).size ≤ n ∨
          received (before ++ [command]) = received before) ∧
    (∀ ds sink last error,
      terminal.emitAll ds sink = (.error error, last) ↔
        ∃ shown d rest middle, ds = shown ++ d :: rest ∧
          terminal.emitAll shown sink = (.ok (), middle) ∧
          terminal.emit d middle = (.error error, last)) ∧
    (∀ report : Report,
      (report.emit terminal (Sink.empty none)).2.written = received report.commands ∧
      (report.emit terminal (Sink.empty (some n))).2.written =
        (received report.commands).extract 0 (min n (received report.commands).size) ∧
      ((report.emit terminal (Sink.empty (some n))).1 = .ok () ↔
        (received report.commands).size ≤ n)) := by
  intro received limited
  have hreceived : ∀ commands, received commands = terminal.output commands :=
    fun commands => (terminal.takes_after commands _).written_of_unlimited
  refine ⟨?_, ?_, ?_, terminal.emitAll_eq_error_iff, ?_⟩
  · intro commands
    rw [hreceived]
    exact (terminal.takes_after commands _).written_of_limited
  · intro before command
    have hcapacity := (terminal.takes_after before (Sink.empty none)).capacity
    exact (terminal.writes_perform command _).2.2 (Sink.cut_of_none hcapacity _)
  · intro before command
    rw [hreceived, hreceived]
    exact terminal.perform_limited_eq_ok_iff n before command
  · intro report
    have hemit := report.writes_emit terminal
    rw [hreceived]
    exact ⟨(hemit _).1.written_of_unlimited, (hemit _).1.written_of_limited,
      report.emit_limited_eq_ok_iff terminal n⟩

/-- A diagnostic whose message is one letter of two bytes. -/
def letterDiagnostic : Diagnostic :=
  ⟨.argumentMismatch, ⟨4, 8⟩, "é", "", []⟩

/-- The limit falls inside the letter: its first byte is the last that is written.  After the
failure the closing line fails too, unless there is none. -/
theorem letterDiagnostic_truncated :
    let limited := Terminal.after ⟨false, none⟩ [.emit letterDiagnostic] (Sink.empty (some 15))
    limited.written = "error[E2010]: é\n --> 4..8\n\n".toUTF8.extract 0 15 ∧
      (Terminal.perform ⟨false, none⟩ (.finish 1) limited).1 ≠ .ok () ∧
      (Terminal.perform ⟨false, none⟩ (.finish 0) limited).1 = .ok () := by
  intro limited
  have hreceived : ∀ commands, (Terminal.after ⟨false, none⟩ commands (Sink.empty none)).written =
      Terminal.output ⟨false, none⟩ commands :=
    fun commands => (Terminal.takes_after _ commands _).written_of_unlimited
  obtain ⟨hwritten, -, hok, -, -⟩ := limited_sink_holds_first_bytes ⟨false, none⟩ 15
  simp only [hreceived] at hwritten hok
  refine ⟨?_, ?_, ?_⟩
  · have htext : Piece.renderAll false (letterDiagnostic.layout none) =
        "error[E2010]: é\n --> 4..8\n\n" := by decide +kernel
    have houtput : Terminal.output ⟨false, none⟩ [.emit letterDiagnostic] =
        "error[E2010]: é\n --> 4..8\n\n".toUTF8 := by
      rw [Terminal.output, List.flatMap_singleton]
      exact congrArg String.toUTF8 htext
    rw [hwritten, houtput, Text.extract_min_size]
  · have hlonger : 15 < (Terminal.output ⟨false, none⟩
          [.emit letterDiagnostic, .finish 1]).size ∧
        (Terminal.output ⟨false, none⟩ [.emit letterDiagnostic]).size <
          (Terminal.output ⟨false, none⟩ [.emit letterDiagnostic, .finish 1]).size := by
      decide +kernel
    intro hsuccess
    rcases (hok _ _).1 hsuccess with hfits | hnothing
    · exact absurd hlonger.1 (Nat.not_lt.2 hfits)
    · exact absurd hlonger.2 (Nat.not_lt.2 (Nat.le_of_eq (congrArg ByteArray.size hnothing)))
  · exact (hok [.emit letterDiagnostic] (.finish 0)).2 (.inr rfl)

end ExprTyping
