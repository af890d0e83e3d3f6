import ChiefLiquidity.ForMathlib.Checked
import ChiefLiquidity.ForMathlib.Rounding
import ChiefLiquidity.ForMathlib.ConstantProduct
import ChiefLiquidity.ForMathlib.MovingAverage
import ChiefLiquidity.ForMathlib.KeyedSum
import ChiefLiquidity.ForMathlib.Firing
import ChiefLiquidity.ForMathlib.Footprint
import ChiefLiquidity.Error
import ChiefLiquidity.Math
import ChiefLiquidity.State
import ChiefLiquidity.Ledger
import ChiefLiquidity.TokenProgram
import ChiefLiquidity.SplToken
import ChiefLiquidity.Runtime
import ChiefLiquidity.Instructions.Accounts
import ChiefLiquidity.Instructions.InitializePool
import ChiefLiquidity.Instructions.AddLiquidity
import ChiefLiquidity.Instructions.RemoveLiquidity
import ChiefLiquidity.Instructions.OpenLoan
import ChiefLiquidity.Instructions.RepayLoan
import ChiefLiquidity.Instructions.Claims
import ChiefLiquidity.Instructions.Swap
import ChiefLiquidity.Program
import ChiefLiquidity.Market.Basic
import ChiefLiquidity.Market.Invariants
import ChiefLiquidity.Market.Moves
import ChiefLiquidity.Market.Trade
import ChiefLiquidity.Market.Reserves
import ChiefLiquidity.Market.Completeness
import ChiefLiquidity.Market.Interest
import ChiefLiquidity.Market.Loans
import ChiefLiquidity.Market.Accrual
import ChiefLiquidity.Market.Reference
import ChiefLiquidity.Market.Value
import ChiefLiquidity.Market.Neutrality
import ChiefLiquidity.Market.Supply
import ChiefLiquidity.Market.Order
import ChiefLiquidity.Market.Quotes
import ChiefLiquidity.Market.Jam
import ChiefLiquidity.Market.Sparse
import ChiefLiquidity.Refinement.Tokens
import ChiefLiquidity.Refinement.View
import ChiefLiquidity.Refinement.Transfers
import ChiefLiquidity.Refinement.Records
import ChiefLiquidity.Refinement.Opening
import ChiefLiquidity.Refinement.Liquidity
import ChiefLiquidity.Refinement.Loans
import ChiefLiquidity.Refinement.Initialize
import ChiefLiquidity.Refinement.Context
import ChiefLiquidity.Refinement.Cascade
import ChiefLiquidity.Refinement.Persist
import ChiefLiquidity.Refinement.Swap
import ChiefLiquidity.Refinement.Run
import ChiefLiquidity.Refinement.Isolation
import ChiefLiquidity.Refinement.Acceptance
import ChiefLiquidity.Replay
import ChiefLiquidity.Properties.Books
import ChiefLiquidity.Properties.BandIndex
import ChiefLiquidity.Properties.Liquidation
import ChiefLiquidity.Properties.Shares
import ChiefLiquidity.Properties.Interest
import ChiefLiquidity.Properties.Supply
import ChiefLiquidity.Properties.Accrual
import ChiefLiquidity.Properties.Reference
import ChiefLiquidity.Properties.Neutrality
import ChiefLiquidity.Properties.Deposits
import ChiefLiquidity.Properties.Health
import ChiefLiquidity.Properties.Borrowing
import ChiefLiquidity.Properties.Quotes
import ChiefLiquidity.Properties.Insolvency
import ChiefLiquidity.Properties.Repayment
import ChiefLiquidity.Properties.Exit
import ChiefLiquidity.Properties.Fees
import ChiefLiquidity.Properties.Concurrency
import ChiefLiquidity.Properties.Acceptance
import ChiefLiquidity.Properties.Recourse
import ChiefLiquidity.Properties.Pipeline
import ChiefLiquidity.Properties.FirstDeposit
import ChiefLiquidity.Properties.Isolation
import ChiefLiquidity.ForMathlib.Codec
import ChiefLiquidity.Wire.Instruction
import ChiefLiquidity.ForMathlib.Bookkeeping
import ChiefLiquidity.Properties.Custody
import ChiefLiquidity.Properties.Wire
import ChiefLiquidity.Wire.Records
import ChiefLiquidity.Wire.Events
import ChiefLiquidity.Refinement.Widths
import ChiefLiquidity.Refinement.Postings
import ChiefLiquidity.Wire.Journal
import ChiefLiquidity.Wire.Replica
import ChiefLiquidity.Refinement.Custody
import ChiefLiquidity.Refinement.Lifecycle
import ChiefLiquidity.Wire.Router
