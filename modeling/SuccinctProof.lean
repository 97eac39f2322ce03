import SuccinctProof.Bytes.PointFormat
import SuccinctProof.Netlist.OfCircuit
import SuccinctProof.Netlist.Witness
import SuccinctProof.Proof.Verify
import SuccinctProof.Proofs.Ceremony.ClearKeys
import SuccinctProof.Proofs.Ceremony.Degeneracy
import SuccinctProof.Proofs.Ceremony.HonestRuns
import SuccinctProof.Proofs.Netlist.Meaning
import SuccinctProof.Proofs.Netlist.Uniqueness
import SuccinctProof.Proofs.Proof.Acceptance
import SuccinctProof.Proofs.Proof.Indistinguishability
import SuccinctProof.Proofs.Proof.Soundness
import SuccinctProof.Proofs.Qap.Divisibility
import SuccinctProof.Proofs.VariableSystem.Replay
import SuccinctProof.Proofs.Proof.Prepared
import SuccinctProof.Proofs.Proof.Rerandomisation
import SuccinctProof.Proofs.Bytes.Codec
import SuccinctProof.Proofs.Bytes.Programs
import SuccinctProof.Proofs.Netlist.Renaming
import SuccinctProof.Proofs.Netlist.Hygiene
import SuccinctProof.Proofs.Netlist.Faults
import SuccinctProof.Proofs.Netlist.Structure
import SuccinctProof.Proofs.Netlist.GateOrder
import SuccinctProof.Proofs.Bytes.Keys
import SuccinctProof.Proofs.Poly.Combination
import SuccinctProof.Proofs.Poly.Vanishing
import SuccinctProof.Proofs.Poly.Interpolant
import SuccinctProof.Proofs.Qap.Entries
import SuccinctProof.Proofs.Proof.Outcomes
import SuccinctProof.Proofs.Netlist.Equations
