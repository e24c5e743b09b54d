import OptimizedLookup.Lookup
import OptimizedLookup.Proofs.Flag.Refinement
import OptimizedLookup.Proofs.Loading.Layout
import OptimizedLookup.Proofs.Loading.Truncation
import OptimizedLookup.Proofs.Loading.Verdict
import OptimizedLookup.Proofs.Path.Analyses
import OptimizedLookup.Proofs.Path.Weights
import OptimizedLookup.Proofs.Tokenizer.Segmentation
import OptimizedLookup.Proofs.Tokenizer.Dictionary
import OptimizedLookup.Proofs.Flag.Spelling
import OptimizedLookup.Proofs.Path.Depth
import OptimizedLookup.Proofs.Path.Pruning
import OptimizedLookup.Proofs.Alphabet.Literals
import OptimizedLookup.Proofs.Flag.Naming
import OptimizedLookup.Proofs.Tokenizer.Agreement
import OptimizedLookup.Proofs.Loading.Preamble
import OptimizedLookup.Proofs.Flag.Layers
import OptimizedLookup.Proofs.Path.Deduplication
import OptimizedLookup.Proofs.Loading.Defects
import OptimizedLookup.Proofs.Path.Safety
import OptimizedLookup.Proofs.Tape
import OptimizedLookup.Proofs.Loading.Records
import OptimizedLookup.Proofs.Path.Reached
