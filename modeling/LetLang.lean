import LetLang.Main
import LetLang.Proofs.Boundaries
import LetLang.Proofs.Briefs
import LetLang.Proofs.Chronicle
import LetLang.Proofs.Coherence
import LetLang.Proofs.Detection
import LetLang.Proofs.Grouping
import LetLang.Proofs.Integers
import LetLang.Proofs.Justification
import LetLang.Proofs.Loosening
import LetLang.Proofs.Messages
import LetLang.Proofs.NormalForm
import LetLang.Proofs.Operations
import LetLang.Proofs.Slices
import LetLang.Proofs.Stopping
import LetLang.Proofs.Transcripts
import LetLang.Text.Quoted
