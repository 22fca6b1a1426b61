import DeviceShell.Log.Notice
import DeviceShell.Proofs.Text.Fitting

/-! Records that lose nothing of what is said: the pieces fit, however large the numbers among
them. -/
namespace DeviceShell

namespace Log

/-- The whole account of a session that ends is in its record. -/
theorem Notice.record_relayClosed (relayed dropped clock : UInt64) :
    (relayClosed relayed dropped).emission.record clock =
      Text.decimal clock.toNat ++ " [D][devcli::relay::session] log relay closed: " ++
        Text.decimal relayed.toNat ++ " bytes relayed, " ++ Text.decimal dropped.toNat ++
        " dropped\r\n" := by
  have joined : String.join ((relayClosed relayed dropped).emission.pieces clock) =
      Text.decimal clock.toNat ++ (" [D][devcli::relay::session] log relay closed: " ++
        (Text.decimal relayed.toNat ++ (" bytes relayed, " ++
          (Text.decimal dropped.toNat ++ " dropped")))) := by
    have opening : " [" ++ ("D" ++ ("][" ++ ("devcli::relay::session" ++ ("] " ++
        "log relay closed: ")))) = " [D][devcli::relay::session] log relay closed: " := by decide
    simp only [emission, message, Emission.pieces, stamp, List.cons_append, List.nil_append,
      String.join_cons, String.join_nil, String.append_empty, ← opening, String.append_assoc]
    rfl
  have fits : (String.join ((relayClosed relayed dropped).emission.pieces clock)).utf8ByteSize ≤
      bodyLimit := by
    have stamped := Text.utf8ByteSize_decimal_le clock.toNat_lt
    have first := Text.utf8ByteSize_decimal_le relayed.toNat_lt
    have second := Text.utf8ByteSize_decimal_le dropped.toNat_lt
    have wording : " [D][devcli::relay::session] log relay closed: ".utf8ByteSize +
        " bytes relayed, ".utf8ByteSize + " dropped".utf8ByteSize + 60 ≤ bodyLimit := by decide
    simp only [joined, String.utf8ByteSize_append]
    omega
  have ending : " dropped" ++ lineEnd = " dropped\r\n" := by decide
  rw [Emission.record, Emission.body, Text.fitPieces_of_le fits, joined, ← ending]
  simp only [String.append_assoc]

end Log

end DeviceShell
